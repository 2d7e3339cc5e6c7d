import Bytescript.ClassFile.PoolReader
import Bytescript.Proofs.Binary.Word
import Bytescript.Proofs.ClassFile.Lookup

/-!
# Pools that are read back

The entries that a builder took describe a pool: each entry stands in its slot, and the slot after
an entry that takes two is empty.  If their operands fit into the bytes that are there for them,
and the count of slots into its two bytes, the stored pool is read back as the one that is
described.
-/

set_option autoImplicit false

namespace Bytescript.Assembly

open Binary Reader

/-! ## What entries mean -/

/-- Whether the operands of an entry fit into their bytes. -/
def operandsFit : PoolEntry (List UInt8) → Bool
  | .utf8 text => text.length < 0x10000
  | .integer _ | .float _ | .long _ | .double _ => true
  | .classInfo index | .string index | .methodType index | .moduleInfo index
  | .packageInfo index => index < 0x10000
  | .fieldRef first second | .methodRef first second | .interfaceMethodRef first second
  | .nameAndType first second | .dynamic first second | .invokeDynamic first second =>
    first < 0x10000 && second < 0x10000
  | .methodHandle kind reference => kind < 0x100 && reference < 0x10000

/-- An entry that stores no text means itself. -/
def withoutText : PoolEntry (List UInt8) → Option (PoolEntry JavaString)
  | .utf8 _ => none
  | .integer value => some (.integer value)
  | .float bits => some (.float bits)
  | .long value => some (.long value)
  | .double bits => some (.double bits)
  | .classInfo name => some (.classInfo name)
  | .string text => some (.string text)
  | .fieldRef owner nameAndType => some (.fieldRef owner nameAndType)
  | .methodRef owner nameAndType => some (.methodRef owner nameAndType)
  | .interfaceMethodRef owner nameAndType => some (.interfaceMethodRef owner nameAndType)
  | .nameAndType name descriptor => some (.nameAndType name descriptor)
  | .methodHandle kind reference => some (.methodHandle kind reference)
  | .methodType descriptor => some (.methodType descriptor)
  | .dynamic bootstrap nameAndType => some (.dynamic bootstrap nameAndType)
  | .invokeDynamic bootstrap nameAndType => some (.invokeDynamic bootstrap nameAndType)
  | .moduleInfo name => some (.moduleInfo name)
  | .packageInfo name => some (.packageInfo name)

/-- What a stored entry means: the string that it spells, or the same operands. -/
inductive StoredEntry.Means : StoredEntry → PoolEntry JavaString → Prop where
  | text {bytes : List UInt8} {string : JavaString} (spells : Text.Spells bytes string)
    (short : bytes.length < 0x10000) : Means (.known (.utf8 bytes)) (.utf8 string)
  | other {stored : PoolEntry (List UInt8)} {entry : PoolEntry JavaString}
    (fit : operandsFit stored = true) (same : withoutText stored = some entry) :
    Means (.known stored) entry

/-- The slots of an entry. -/
def slotsOf (entry : PoolEntry JavaString) : List (Option (PoolEntry JavaString)) :=
  if entry.isWide then [some entry, none] else [some entry]

namespace PoolBuilder

/-- A builder holds a pool that can be stored. -/
structure Holds (builder : PoolBuilder) (pool : ConstantPool) : Prop where
  /-- Slot zero is empty, and the others are those of the entries. -/
  described : ∃ entries, List.Forall₂ StoredEntry.Means builder.entries.toList entries ∧
    pool = ⟨(none :: entries.flatMap slotsOf).toArray⟩
  /-- The next index is the one behind the last slot. -/
  next : builder.next = pool.count
  small : pool.count < 0x10000

end PoolBuilder

/-! ## Reading entries -/

theorem takes_readPair {make : Nat → Nat → PoolEntry JavaString} {first second : Nat}
    (fit : first < 0x10000 ∧ second < 0x10000) :
    (PoolEntry.readPair make).Takes (bigEndianBytes 2 first ++ bigEndianBytes 2 second)
      (make first second) :=
  (takes_u16 fit.1).bind ((takes_u16 fit.2).bind_nil (takes_pure _))

theorem takes_readIndex {make : Nat → PoolEntry JavaString} {index : Nat}
    (fits : index < 0x10000) :
    (PoolEntry.readIndex make).Takes (bigEndianBytes 2 index) (make index) :=
  (takes_u16 fits).bind_nil (takes_pure _)

theorem takes_readText {text : List UInt8} {string : JavaString} (index : Nat)
    (short : text.length < 0x10000) (spells : Text.readUtf8? text = some string) :
    (PoolEntry.readText index).Takes (bigEndianBytes 2 text.length ++ text) (.utf8 string) := by
  refine (takes_u16 short).bind ((takes_take text).bind_nil ?_)
  rw [spells]
  exact takes_pure _

/-- An entry is read back after the byte that announces it. -/
theorem takes_readEntry {stored : StoredEntry} {entry : PoolEntry JavaString}
    (means : stored.Means entry) (index : Nat) :
    (PoolEntry.read index).Takes stored.bytes entry := by
  cases means with
  | text spells short => exact takes_announced (takes_readText index short spells.read)
  | @other stored entry fit same =>
    refine takes_announced ?_
    cases stored with
    | utf8 text => cases same
    | integer value =>
      cases same
      exact (takes_i32 value).bind_nil (takes_pure _)
    | float bits =>
      cases same
      refine (takes_u32 bits.toNat_lt).bind_nil ?_
      rw [UInt32.ofNat_toNat]
      exact takes_pure _
    | long value =>
      cases same
      exact (takes_i64 value).bind_nil (takes_pure _)
    | double bits =>
      cases same
      refine (takes_u64 bits.toNat_lt).bind_nil ?_
      rw [UInt64.ofNat_toNat]
      exact takes_pure _
    | methodHandle kind reference =>
      cases same
      obtain ⟨narrow, fits⟩ := Bool.and_eq_true_iff.mp fit
      exact (takes_u8 (of_decide_eq_true narrow)).bind
        ((takes_u16 (of_decide_eq_true fits)).bind_nil (takes_pure _))
    | classInfo | string | methodType | moduleInfo | packageInfo =>
      cases same
      exact takes_readIndex (of_decide_eq_true fit)
    | fieldRef | methodRef | interfaceMethodRef | nameAndType | dynamic | invokeDynamic =>
      cases same
      obtain ⟨fits, fits'⟩ := Bool.and_eq_true_iff.mp fit
      exact takes_readPair ⟨of_decide_eq_true fits, of_decide_eq_true fits'⟩

/-! ## Reading pools -/

theorem slotsOf_ne_nil (entry : PoolEntry JavaString) : slotsOf entry ≠ [] := by
  rw [slotsOf]
  split <;> exact List.cons_ne_nil _ _

theorem takes_readSlots {stored : List StoredEntry} {entries : List (PoolEntry JavaString)}
    (means : List.Forall₂ StoredEntry.Means stored entries)
    (count : Nat) :
    (ConstantPool.readSlots count (entries.flatMap slotsOf).length).Takes
      (stored.flatMap StoredEntry.bytes) (entries.flatMap slotsOf) := by
  induction means with
  | nil => exact takes_pure []
  | @cons first entry stored entries here there ih =>
    have entry' (index : Nat) := (takes_readEntry here index).within (.poolEntry index)
    rw [List.flatMap_cons, List.flatMap_cons, slotsOf]
    by_cases wide : entry.isWide = true
    · rw [if_pos wide]
      refine (entry' _).bind ?_
      rw [if_pos wide]
      exact ih.bind_nil (takes_pure _)
    · rw [if_neg wide]
      -- The last slot is read apart from the others, as it has no room for a second one.
      cases there with
      | nil =>
        refine (entry' _).bind ?_
        rw [if_neg wide]
        exact takes_pure _
      | @cons _ second _ _ _ _ =>
        obtain ⟨slot, slots, some⟩ := List.exists_cons_of_ne_nil (slotsOf_ne_nil second)
        rw [List.flatMap_cons, some] at ih ⊢
        refine (entry' _).bind ?_
        rw [if_neg wide]
        exact ih.bind_nil (takes_pure _)

/-- A pool that a builder holds is read back. -/
theorem takes_readPool {builder : PoolBuilder} {pool : ConstantPool} (holds : builder.Holds pool) :
    ConstantPool.read.Takes builder.bytes pool := by
  obtain ⟨⟨entries, means, rfl⟩, next, small⟩ := holds
  have count : builder.next = (entries.flatMap slotsOf).length + 1 := by
    rw [next, ConstantPool.count, List.size_toArray, List.length_cons]
  refine (takes_u16 (next ▸ small)).bind ?_
  rw [if_neg (by omega), count, Nat.add_sub_cancel]
  exact (takes_readSlots means _).bind_nil (takes_pure _)

/-! ## Building pools -/

namespace PoolBuilder

/-- A builder that was only given entries with a meaning, with or without looking for equal ones. -/
inductive Built : PoolBuilder → Prop where
  | empty : Built .empty
  | push {builder : PoolBuilder} {stored : StoredEntry} {entry : PoolEntry JavaString}
    (built : Built builder) (means : stored.Means entry) :
    Built (PoolBuilder.push stored builder).2
  | remember {builder : PoolBuilder} {stored : StoredEntry} {index : Nat}
    (built : Built builder) : Built (PoolBuilder.remember stored index builder).2

theorem Built.add {builder : PoolBuilder} {stored : StoredEntry} {entry : PoolEntry JavaString}
    (built : Built builder) (means : stored.Means entry) :
    Built (PoolBuilder.add stored builder).2 := by
  simp only [PoolBuilder.add, bind, StateT.bind, get, getThe, MonadStateOf.get, StateT.get, pure]
  cases builder.known.lookup stored with
  | some index => exact built
  | none => exact (built.push means).remember

end PoolBuilder

/-- An entry takes as many slots as are counted for it. -/
theorem length_slotsOf {stored : StoredEntry} {entry : PoolEntry JavaString}
    (means : stored.Means entry) : (slotsOf entry).length = stored.slots := by
  cases means with
  | text => rfl
  | @other stored _ _ same =>
    cases stored with
    | utf8 text => cases same
    | _ =>
      cases same
      rfl

/-- Every builder of entries with a meaning holds a pool, as long as it can be counted. -/
theorem PoolBuilder.Built.holds {builder : PoolBuilder} (built : builder.Built)
    (small : builder.next < 0x10000) : ∃ pool, builder.Holds pool := by
  suffices described : ∃ entries, List.Forall₂ StoredEntry.Means builder.entries.toList entries ∧
      builder.next = (entries.flatMap slotsOf).length + 1 by
    obtain ⟨entries, means, next⟩ := described
    have count : builder.next = ConstantPool.count ⟨(none :: entries.flatMap slotsOf).toArray⟩ := by
      rw [next, ConstantPool.count, List.size_toArray, List.length_cons]
    exact ⟨_, ⟨entries, means, rfl⟩, count, count ▸ small⟩
  clear small
  induction built with
  | empty => exact ⟨[], .nil, rfl⟩
  | @push builder stored entry _ means ih =>
    obtain ⟨entries, others, next⟩ := ih
    refine ⟨entries ++ [entry], ?_, ?_⟩
    · simp only [PoolBuilder.push, Array.toList_push]
      exact List.rel_append others (.cons means .nil)
    · simp only [PoolBuilder.push, List.flatMap_append, List.length_append,
        List.flatMap_singleton, length_slotsOf means]
      omega
  | remember _ ih => exact ih

end Bytescript.Assembly
