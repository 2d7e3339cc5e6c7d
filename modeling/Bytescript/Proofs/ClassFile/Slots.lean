import Bytescript.Proofs.Assembly.Pool
import Bytescript.Proofs.ClassFile.Layout
import Bytescript.Proofs.Text.Spelling

/-!
# The slots of a pool that was read

A pool is read from nothing but its count and the entries for its slots, each of which stands in
the next free slot and means what its bytes say.  Reading goes on until the slots are used up, one
or two at a time, and fails if the last entry needs one more than is left.  So the slots are as many
as were counted.  Slot zero is empty, and so is the slot behind an entry that takes two, which is
therefore never the last one; every other slot has its entry.
-/

set_option autoImplicit false

namespace Bytescript

open Binary Reader Assembly

/-! ## Entries -/

namespace PoolEntry

/-- Bytes that are the operands of an entry of the kind that a tag announces. -/
def IsStored (tag : Nat) (bytes : List UInt8) (entry : PoolEntry JavaString) : Prop :=
  ∃ stored, (StoredEntry.known stored).Means entry ∧ stored.tag = tag ∧
    operandBytes stored = bytes

theorem isStored_of_fit {stored : PoolEntry (List UInt8)} {entry : PoolEntry JavaString}
    (fit : operandsFit stored = true) (same : withoutText stored = some entry) :
    IsStored stored.tag (operandBytes stored) entry :=
  ⟨stored, .other fit same, rfl, rfl⟩

theorem relates_readText (index : Nat) : (readText index).Relates (IsStored 1) := by
  intro cursor entry after read
  obtain ⟨length, _, first, read⟩ := bindState_eq_ok.mp read
  obtain ⟨text, _, second, decoded⟩ := bindState_eq_ok.mp read
  obtain ⟨small, passes⟩ := u16_eq_ok first
  obtain ⟨rfl, passes'⟩ := take_eq_ok second
  cases spelled : Text.readUtf8? text with
  | none =>
    rw [spelled] at decoded
    cases decoded
  | some string =>
    rw [spelled] at decoded
    cases decoded
    exact ⟨_, ⟨.utf8 text, .text (Text.readUtf8?_eq_some.mp spelled) small, rfl, rfl⟩,
      passes.append passes'⟩

theorem relates_readIndex {tag : Nat} {make : Nat → PoolEntry JavaString}
    (stored : ∀ index < 0x10000, IsStored tag (bigEndianBytes 2 index) (make index)) :
    (readIndex make).Relates (IsStored tag) := by
  intro cursor entry after read
  obtain ⟨index, _, first, same⟩ := bindState_eq_ok.mp read
  cases same
  obtain ⟨small, passes⟩ := u16_eq_ok first
  exact ⟨_, stored index small, passes⟩

theorem relates_readPair {tag : Nat} {make : Nat → Nat → PoolEntry JavaString}
    (stored : ∀ one two, one < 0x10000 ∧ two < 0x10000 →
      IsStored tag (bigEndianBytes 2 one ++ bigEndianBytes 2 two) (make one two)) :
    (readPair make).Relates (IsStored tag) := by
  intro cursor entry after read
  obtain ⟨one, _, first, read⟩ := bindState_eq_ok.mp read
  obtain ⟨two, _, second, same⟩ := bindState_eq_ok.mp read
  cases same
  obtain ⟨small, passes⟩ := u16_eq_ok first
  obtain ⟨small', passes'⟩ := u16_eq_ok second
  exact ⟨_, stored one two ⟨small, small'⟩, passes.append passes'⟩

theorem pairFits {one two : Nat} (small : one < 0x10000 ∧ two < 0x10000) :
    (one < 0x10000 && two < 0x10000) = true :=
  Bool.and_eq_true_iff.mpr ⟨decide_eq_true small.1, decide_eq_true small.2⟩

/-- An entry means what its bytes say. -/
theorem relates_read (index : Nat) : (PoolEntry.read index).Relates fun bytes entry =>
    ∃ stored : StoredEntry, stored.Means entry ∧ stored.bytes = bytes := by
  intro cursor entry after read
  obtain ⟨tag, middle, first, read⟩ := bindState_eq_ok.mp read
  obtain ⟨small, announced⟩ := u8_eq_ok first
  have byte : bigEndianBytes 1 tag = [UInt8.ofNat tag] := by
    rw [bigEndianBytes, Nat.mod_eq_of_lt small]
    rfl
  suffices operands : ∃ bytes, IsStored tag bytes entry ∧ middle.Passes bytes after by
    obtain ⟨_, ⟨stored, means, rfl, rfl⟩, passes⟩ := operands
    refine ⟨_, ⟨_, means, rfl⟩, ?_⟩
    have whole := announced.append passes
    rwa [byte] at whole
  clear first announced byte small
  split at read
  · exact relates_readText index _ _ _ read
  -- numbers
  · obtain ⟨value, _, word, same⟩ := bindState_eq_ok.mp read
    cases same
    exact ⟨_, ⟨.integer value, .other rfl rfl, rfl, rfl⟩, i32_eq_ok word⟩
  · obtain ⟨bits, _, word, same⟩ := bindState_eq_ok.mp read
    cases same
    obtain ⟨small, passes⟩ := u32_eq_ok word
    rw [← UInt32.toNat_ofNat_of_lt' small] at passes
    exact ⟨_, ⟨.float (.ofNat bits), .other rfl rfl, rfl, rfl⟩, passes⟩
  · obtain ⟨value, _, word, same⟩ := bindState_eq_ok.mp read
    cases same
    exact ⟨_, ⟨.long value, .other rfl rfl, rfl, rfl⟩, i64_eq_ok word⟩
  · obtain ⟨bits, _, word, same⟩ := bindState_eq_ok.mp read
    cases same
    obtain ⟨small, passes⟩ := u64_eq_ok word
    rw [← UInt64.toNat_ofNat_of_lt' small] at passes
    exact ⟨_, ⟨.double (.ofNat bits), .other rfl rfl, rfl, rfl⟩, passes⟩
  -- references
  · exact relates_readIndex (fun index small =>
      @isStored_of_fit (.classInfo index) _ (decide_eq_true small) rfl) _ _ _ read
  · exact relates_readIndex (fun index small =>
      @isStored_of_fit (.string index) _ (decide_eq_true small) rfl) _ _ _ read
  · exact relates_readPair (fun one two small =>
      @isStored_of_fit (.fieldRef one two) _ (pairFits small) rfl) _ _ _ read
  · exact relates_readPair (fun one two small =>
      @isStored_of_fit (.methodRef one two) _ (pairFits small) rfl) _ _ _ read
  · exact relates_readPair (fun one two small =>
      @isStored_of_fit (.interfaceMethodRef one two) _ (pairFits small) rfl) _ _ _ read
  · exact relates_readPair (fun one two small =>
      @isStored_of_fit (.nameAndType one two) _ (pairFits small) rfl) _ _ _ read
  · obtain ⟨kind, _, first, read⟩ := bindState_eq_ok.mp read
    obtain ⟨reference, _, second, same⟩ := bindState_eq_ok.mp read
    cases same
    obtain ⟨narrow, passes⟩ := u8_eq_ok first
    obtain ⟨small, passes'⟩ := u16_eq_ok second
    exact ⟨_, @isStored_of_fit (.methodHandle kind reference) _
      (Bool.and_eq_true_iff.mpr ⟨decide_eq_true narrow, decide_eq_true small⟩) rfl,
      passes.append passes'⟩
  · exact relates_readIndex (fun index small =>
      @isStored_of_fit (.methodType index) _ (decide_eq_true small) rfl) _ _ _ read
  · exact relates_readPair (fun one two small =>
      @isStored_of_fit (.dynamic one two) _ (pairFits small) rfl) _ _ _ read
  · exact relates_readPair (fun one two small =>
      @isStored_of_fit (.invokeDynamic one two) _ (pairFits small) rfl) _ _ _ read
  · exact relates_readIndex (fun index small =>
      @isStored_of_fit (.moduleInfo index) _ (decide_eq_true small) rfl) _ _ _ read
  · exact relates_readIndex (fun index small =>
      @isStored_of_fit (.packageInfo index) _ (decide_eq_true small) rfl) _ _ _ read
  · cases read

end PoolEntry

namespace ConstantPool

/-! ## Reading slots -/

/-- The slots that are read are those of the entries that the bytes hold. -/
theorem relates_readSlots (count remaining : Nat) :
    (readSlots count remaining).Relates fun bytes slots => ∃ stored entries,
      List.Forall₂ StoredEntry.Means stored entries ∧ slots = entries.flatMap slotsOf ∧
        bytes = stored.flatMap StoredEntry.bytes := by
  fun_induction readSlots count remaining with
  | case1 =>
    intro cursor slots after read
    cases read
    exact ⟨[], ⟨[], [], .nil, rfl, rfl⟩, cursor.passes_nil⟩
  | case2 index =>
    intro cursor slots after read
    obtain ⟨entry, _, first, read⟩ := bindState_eq_ok.mp read
    obtain ⟨_, ⟨stored, means, rfl⟩, passes⟩ := (PoolEntry.relates_read _).within _ _ _ _ first
    -- An entry of two slots is refused here, as only one is left.
    cases wide : entry.isWide with
    | true =>
      rw [if_pos wide] at read
      cases read
    | false =>
      rw [if_neg (Bool.not_eq_true _ ▸ wide)] at read
      cases read
      exact ⟨stored.bytes, ⟨[stored], [entry], .cons means .nil, by simp [slotsOf, wide],
        by simp⟩, passes⟩
  | case3 remaining index one two =>
    intro cursor slots after read
    obtain ⟨entry, _, first, read⟩ := bindState_eq_ok.mp read
    obtain ⟨_, ⟨stored, means, rfl⟩, passes⟩ := (PoolEntry.relates_read _).within _ _ _ _ first
    cases wide : entry.isWide with
    | true =>
      rw [if_pos wide] at read
      obtain ⟨_, _, later, same⟩ := bindState_eq_ok.mp read
      cases same
      obtain ⟨_, ⟨others, entries, there, rfl, rfl⟩, passes'⟩ := one _ _ _ later
      exact ⟨_, ⟨stored :: others, entry :: entries, .cons means there, by simp [slotsOf, wide],
        rfl⟩, passes.append passes'⟩
    | false =>
      rw [if_neg (Bool.not_eq_true _ ▸ wide)] at read
      obtain ⟨_, _, later, same⟩ := bindState_eq_ok.mp read
      cases same
      obtain ⟨_, ⟨others, entries, there, rfl, rfl⟩, passes'⟩ := two _ _ _ later
      exact ⟨_, ⟨stored :: others, entry :: entries, .cons means there, by simp [slotsOf, wide],
        rfl⟩, passes.append passes'⟩

/-- Bytes that are the count of a pool and its entries. -/
def IsSpelledBy (pool : ConstantPool) (bytes : List UInt8) : Prop :=
  ∃ stored entries, List.Forall₂ StoredEntry.Means stored entries ∧
    pool = ⟨(none :: entries.flatMap slotsOf).toArray⟩ ∧ pool.count < 0x10000 ∧
      bytes = word16 pool.count ++ stored.flatMap StoredEntry.bytes

/-- A pool that is read is spelled by the bytes that were passed. -/
theorem relates_read : ConstantPool.read.Relates fun bytes pool => pool.IsSpelledBy bytes := by
  intro cursor pool after read
  have small := count_lt_of_read read
  obtain ⟨count, _, first, read⟩ := bindState_eq_ok.mp read
  obtain ⟨-, passes⟩ := u16_eq_ok first
  split at read
  · cases read
  next written =>
    obtain ⟨slots, _, later, same⟩ := bindState_eq_ok.mp read
    cases same
    have length := length_readSlots _ _ later
    obtain ⟨_, ⟨stored, entries, means, rfl, rfl⟩, passes'⟩ := relates_readSlots _ _ _ _ _ later
    have counted : ConstantPool.count ⟨(none :: entries.flatMap slotsOf).toArray⟩ = count := by
      rw [ConstantPool.count, List.size_toArray, List.length_cons]
      omega
    exact ⟨_, ⟨stored, entries, means, rfl, small, rfl⟩, counted ▸ passes.append passes'⟩

/-! ## The order of the slots -/

/-- The slot of an entry that takes the next one as well. -/
def TakesNext (slot : Option (PoolEntry JavaString)) : Prop :=
  ∃ entry, slot = some entry ∧ entry.isWide = true

theorem takesNext_some {entry : PoolEntry JavaString} :
    TakesNext (some entry) ↔ entry.isWide = true :=
  ⟨fun ⟨_, same, wide⟩ => Option.some.inj same ▸ wide, fun wide => ⟨entry, rfl, wide⟩⟩

theorem not_takesNext_none : ¬ TakesNext none := fun ⟨_, same, _⟩ => nomatch same

/-- The slots of an entry: its own, and an empty one if it takes the next one as well. -/
theorem slotsOf_cases (entry : PoolEntry JavaString) :
    (TakesNext (some entry) ∧ slotsOf entry = [some entry, none]) ∨
      (¬ TakesNext (some entry) ∧ slotsOf entry = [some entry]) := by
  rw [takesNext_some, slotsOf]
  by_cases wide : entry.isWide = true
  · exact .inl ⟨wide, if_pos wide⟩
  · exact .inr ⟨wide, if_neg wide⟩

section Order

variable {slot : Option (PoolEntry JavaString)}

/-- Behind a slot that does not take the next one, the slots that are empty are exactly those that
are taken by the one before. -/
theorem isChain_slots (entries : List (PoolEntry JavaString)) (single : ¬ TakesNext slot) :
    (slot :: entries.flatMap slotsOf).IsChain fun one next => next = none ↔ TakesNext one := by
  induction entries generalizing slot with
  | nil => exact .singleton slot
  | cons entry entries ih =>
    have filled : some entry = none ↔ TakesNext slot := iff_of_false nofun single
    rw [List.flatMap_cons]
    rcases slotsOf_cases entry with ⟨wide, slots⟩ | ⟨narrow, slots⟩
    · rw [slots]
      exact .cons_cons filled (.cons_cons (iff_of_true rfl wide) (ih not_takesNext_none))
    · rw [slots]
      exact .cons_cons filled (ih narrow)

/-- The last slot does not take another one. -/
theorem not_takesNext_getLast (entries : List (PoolEntry JavaString)) (single : ¬ TakesNext slot) :
    ∀ last ∈ (slot :: entries.flatMap slotsOf).getLast?, ¬ TakesNext last := by
  induction entries generalizing slot with
  | nil =>
    intro last here
    cases here
    exact single
  | cons entry entries ih =>
    rw [List.flatMap_cons]
    rcases slotsOf_cases entry with ⟨-, slots⟩ | ⟨narrow, slots⟩
    · rw [slots]
      exact ih not_takesNext_none
    · rw [slots]
      exact ih narrow

end Order

/-! ## Pools -/

/-- A slot of the pool that no entry stands in. -/
def IsUnusable (pool : ConstantPool) (index : Nat) : Prop := pool.slots[index]? = some none

/-- The index behind an entry that takes two slots. -/
def FollowsWide (pool : ConstantPool) (index : Nat) : Prop :=
  ∃ before entry, index = before + 1 ∧ pool.Has before entry ∧ entry.isWide = true

namespace IsSpelledBy

variable {pool : ConstantPool} {bytes : List UInt8}

theorem one_le_count (spelled : pool.IsSpelledBy bytes) : 1 ≤ pool.count := by
  obtain ⟨_, entries, _, rfl, _⟩ := spelled
  exact Nat.succ_pos _

/-- The last slot has room for its entry. -/
theorem last_isWide (spelled : pool.IsSpelledBy bytes) {entry : PoolEntry JavaString}
    (last : pool.Has (pool.count - 1) entry) : entry.isWide = false := by
  obtain ⟨_, entries, _, rfl, _⟩ := spelled
  rw [Has, count, List.size_toArray, List.getElem?_toArray, ← List.getLast?_eq_getElem?] at last
  have single := not_takesNext_getLast entries not_takesNext_none _ last
  rwa [takesNext_some, Bool.not_eq_true] at single

/-- Of two neighbours, the second one is empty exactly if the first one takes it. -/
theorem eq_none_iff_takesNext (spelled : pool.IsSpelledBy bytes) {index : Nat}
    {slot next : Option (PoolEntry JavaString)} (here : pool.slots[index]? = some slot)
    (there : pool.slots[index + 1]? = some next) : next = none ↔ TakesNext slot := by
  obtain ⟨_, entries, _, rfl, _⟩ := spelled
  have chain := List.isChain_iff_getElem.mp (isChain_slots entries not_takesNext_none)
  obtain ⟨_, rfl⟩ := Array.getElem?_eq_some_iff.mp here
  obtain ⟨inside, rfl⟩ := Array.getElem?_eq_some_iff.mp there
  exact chain index inside

/-- The slots without an entry are the first one and those that an entry before them takes. -/
theorem isUnusable_iff (spelled : pool.IsSpelledBy bytes) (index : Nat) :
    pool.IsUnusable index ↔ index = 0 ∨ pool.FollowsWide index := by
  cases index with
  | zero =>
    obtain ⟨_, entries, _, rfl, _⟩ := spelled
    exact iff_of_true rfl (.inl rfl)
  | succ index =>
    constructor
    · intro empty
      have inside : index < pool.count :=
        Nat.lt_of_succ_lt (Array.getElem?_eq_some_iff.mp empty).1
      have here : pool.slots[index]? = some pool.slots[index] := Array.getElem?_eq_getElem inside
      obtain ⟨entry, same, wide⟩ := (spelled.eq_none_iff_takesNext here empty).mp rfl
      exact .inr ⟨index, entry, rfl, here.trans (congrArg some same), wide⟩
    · rintro (zero | ⟨_, entry, same, has, wide⟩)
      · cases zero
      · cases same
        -- If there were no slot behind it, the entry would stand in the last one.
        cases there : pool.slots[index + 1]? with
        | none =>
          have last : index = pool.count - 1 := by
            have inside := has.lt_count
            have outside : pool.count ≤ index + 1 := Array.getElem?_eq_none_iff.mp there
            omega
          rw [spelled.last_isWide (last ▸ has)] at wide
          cases wide
        | some next =>
          have empty := (spelled.eq_none_iff_takesNext has there).mpr (takesNext_some.mpr wide)
          rw [IsUnusable, there, empty]

/-- The texts of the pool keep no pair of surrogates apart. -/
theorem joined (spelled : pool.IsSpelledBy bytes) {index : Nat} {string : JavaString}
    (has : pool.Has index (.utf8 string)) : string.Joined := by
  obtain ⟨stored, entries, means, rfl, _⟩ := spelled
  have member : some (PoolEntry.utf8 string) ∈ none :: entries.flatMap slotsOf := by
    rw [Has, List.getElem?_toArray] at has
    exact List.mem_of_getElem? has
  obtain ⟨entry, among, slot⟩ :=
    List.mem_flatMap.mp ((List.mem_cons.mp member).resolve_left (Option.some_ne_none _))
  obtain rfl : entry = .utf8 string := by
    rcases slotsOf_cases entry with ⟨-, slots⟩ | ⟨-, slots⟩ <;> rw [slots] at slot <;>
      simpa [eq_comm] using slot
  obtain ⟨one, -, meant⟩ := exists_of_forall₂_right means among
  cases meant with
  | text spells => exact spells.joined
  | @other stored _ _ same =>
    cases stored <;> cases same

/-- The first two bytes are the count. -/
theorem bigEndian_take (spelled : pool.IsSpelledBy bytes) (more : List UInt8) :
    bigEndian ((bytes ++ more).take 2) = pool.count := by
  obtain ⟨stored, _, _, -, small, rfl⟩ := spelled
  have front : ((word16 pool.count ++ stored.flatMap StoredEntry.bytes) ++ more).take 2 =
      word16 pool.count := by
    rw [List.append_assoc]
    exact List.take_left' (length_bigEndianBytes 2 _)
  rw [front, word16, bigEndian_bigEndianBytes]
  exact Nat.mod_eq_of_lt small

end IsSpelledBy

end ConstantPool

end Bytescript
