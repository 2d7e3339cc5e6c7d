import Bytescript.Proofs.Assembly.Pool
import Mathlib.Algebra.GroupWithZero.Nat
import Mathlib.Data.List.Nodup

/-!
# Indices on both sides of a pool

Whoever builds a pool keeps the indices that the builder hands out and writes them into the rest
of the class.  They are of use only if the pool that is read back has the same entries at the same
indices, whatever else was added before and after, and however many slots the entries between them
take.

A sound builder knows each of its entries by the index where the entry stands.  Adding entries
keeps builders sound and forgets nothing, so what a call added can be looked up in the pool that
is read in the end.
-/

set_option autoImplicit false

namespace Bytescript.Assembly

open Binary Reader

/-! ## Where entries stand -/

/-- The slots that entries take together. -/
def slotCount (entries : List StoredEntry) : Nat := (entries.map StoredEntry.slots).sum

/-- An entry stands at an index if the entries before it take the slots before that, from the
first one on. -/
def StandsAt (entries : List StoredEntry) (index : Nat) (entry : StoredEntry) : Prop :=
  ∃ before after, entries = before ++ entry :: after ∧ index = slotCount before + 1

theorem StoredEntry.slots_pos (entry : StoredEntry) : 0 < entry.slots := by
  cases entry with
  | known entry =>
    rw [slots, PoolEntry.slots]
    split <;> decide
  | raw => exact Nat.one_pos

theorem slotCount_append (entries more : List StoredEntry) :
    slotCount (entries ++ more) = slotCount entries + slotCount more := by
  rw [slotCount, List.map_append, List.sum_append, slotCount, slotCount]

theorem slotCount_cons (entry : StoredEntry) (entries : List StoredEntry) :
    slotCount (entry :: entries) = entry.slots + slotCount entries := by
  rw [slotCount, List.map_cons, List.sum_cons, slotCount]

theorem StandsAt.append {entries : List StoredEntry} {index : Nat} {entry : StoredEntry}
    (stands : StandsAt entries index entry) (more : List StoredEntry) :
    StandsAt (entries ++ more) index entry := by
  obtain ⟨before, after, rfl, rfl⟩ := stands
  exact ⟨before, after ++ more, by rw [List.append_assoc, List.cons_append], rfl⟩

theorem StandsAt.le {entries : List StoredEntry} {index : Nat} {entry : StoredEntry}
    (stands : StandsAt entries index entry) : index ≤ slotCount entries := by
  obtain ⟨before, after, rfl, rfl⟩ := stands
  have positive := entry.slots_pos
  rw [slotCount_append, slotCount_cons]
  omega

/-- No two entries stand at one index. -/
theorem StandsAt.unique {entries : List StoredEntry} {index : Nat} {entry other : StoredEntry}
    (here : StandsAt entries index entry) (there : StandsAt entries index other) :
    entry = other := by
  obtain ⟨before, after, split, rfl⟩ := here
  obtain ⟨before', after', split', same⟩ := there
  -- One of the beginnings continues the other, and by nothing, as every entry takes a slot.
  rcases List.append_eq_append_iff.mp (split.symm.trans split') with
    ⟨between, rfl, rest⟩ | ⟨between, rfl, rest⟩
  all_goals
    rw [slotCount_append] at same
    cases between with
    | nil => cases rest; rfl
    | cons first between =>
      have positive := first.slots_pos
      rw [slotCount_cons] at same
      omega

/-! ## Where slots are -/

/-- A stored entry means one thing only. -/
theorem StoredEntry.Means.unique {stored : StoredEntry} {entry other : PoolEntry JavaString}
    (means : stored.Means entry) (means' : stored.Means other) : entry = other := by
  cases means with
  | text spells _ =>
    cases means' with
    | text spells' _ => rw [Option.some.inj (spells.read.symm.trans spells'.read)]
    | other _ same => cases same
  | other _ same =>
    cases means' with
    | text _ _ => cases same
    | other _ same' => exact Option.some.inj (same.symm.trans same')

/-- An entry that stands at an index means what the slot at that index holds. -/
theorem StandsAt.getElem? {stored : List StoredEntry} {entries : List (PoolEntry JavaString)}
    (means : List.Forall₂ StoredEntry.Means stored entries) {index : Nat} {one : StoredEntry}
    (stands : StandsAt stored index one) {entry : PoolEntry JavaString}
    (meant : one.Means entry) :
    (none :: entries.flatMap slotsOf)[index]? = some (some entry) := by
  obtain ⟨before, after, rfl, rfl⟩ := stands
  rw [List.getElem?_cons_succ]
  induction before generalizing entries with
  | nil =>
    obtain ⟨found, entries, here, -, rfl⟩ := List.forall₂_cons_left_iff.mp means
    rw [here.unique meant, List.flatMap_cons, slotsOf]
    split <;> rfl
  | cons first before ih =>
    obtain ⟨found, entries, here, others, rfl⟩ := List.forall₂_cons_left_iff.mp means
    rw [slotCount_cons, List.flatMap_cons, ← length_slotsOf here,
      List.getElem?_append_right (Nat.le_add_right _ _), Nat.add_sub_cancel_left]
    exact ih others

/-! ## Sound builders -/

/-- A builder knows its entries by the indices where they stand, and as long as indices fit into
two bytes it was only given entries with a meaning. -/
structure PoolBuilder.Sound (builder : PoolBuilder) : Prop where
  next : builder.next = slotCount builder.entries.toList + 1
  stands : ∀ known ∈ builder.known, StandsAt builder.entries.toList known.2 known.1
  once : (builder.known.map Prod.fst).Nodup
  built : builder.next < 0x10000 → builder.Built

/-- A builder is sound and has forgotten nothing since an earlier time. -/
structure PoolBuilder.Grows (before after : PoolBuilder) : Prop where
  sound : after.Sound
  keeps : before.known <:+ after.known
  next : before.next ≤ after.next

/-- Whatever a builder knows is in a pool, at the index by which the builder knows it. -/
structure PoolBuilder.KnownIn (builder : PoolBuilder) (pool : ConstantPool) : Prop where
  small : builder.next < 0x10000
  has : ∀ {stored : StoredEntry} {index : Nat} {entry : PoolEntry JavaString},
    (stored, index) ∈ builder.known → stored.Means entry → pool.Has index entry

/-- An action adds entries to a builder and returns the index of one that is there afterwards.
The index stands for something in every pool that has what the builder knows by then, and at any
later time the action returns it again and adds nothing. -/
structure Adds (action : Building Nat) (builder : PoolBuilder)
    (standsFor : ConstantPool → Nat → Prop) : Prop where
  grows : builder.Grows (action builder).2
  index : (action builder).1 < (action builder).2.next
  found : ∀ pool, (action builder).2.KnownIn pool → standsFor pool (action builder).1
  again : ∀ later, (action builder).2.Grows later → action later = ((action builder).1, later)

namespace PoolBuilder

variable {builder before after last : PoolBuilder} {stored : StoredEntry} {pool : ConstantPool}

theorem sound_empty : empty.Sound where
  next := rfl
  stands _ member := by cases member
  once := List.nodup_nil
  built _ := .empty

theorem Sound.grows (sound : builder.Sound) : builder.Grows builder :=
  ⟨sound, List.suffix_rfl, Nat.le_refl _⟩

theorem Grows.trans (first : before.Grows after) (second : after.Grows last) :
    before.Grows last :=
  ⟨second.sound, first.keeps.trans second.keeps, Nat.le_trans first.next second.next⟩

theorem Grows.knownIn (grows : before.Grows after) (known : after.KnownIn pool) :
    before.KnownIn pool :=
  ⟨Nat.lt_of_le_of_lt grows.next known.small, fun member => known.has (grows.keeps.mem member)⟩

/-! ## Adding one entry -/

/-- An entry that is known is not added again. -/
theorem add_of_lookup {index : Nat} (found : builder.known.lookup stored = some index) :
    add stored builder = (index, builder) := by
  simp only [add, bind, StateT.bind, get, getThe, MonadStateOf.get, StateT.get, pure]
  rw [found]
  rfl

/-- An entry that is not known gets the next index. -/
theorem add_of_lookup_none (missing : builder.known.lookup stored = none) :
    add stored builder = (builder.next,
      { entries := builder.entries.push stored
        known := (stored, builder.next) :: builder.known
        next := builder.next + stored.slots }) := by
  simp only [add, bind, StateT.bind, get, getThe, MonadStateOf.get, StateT.get, pure]
  rw [missing]
  rfl

theorem mem_known_of_lookup {index : Nat} (found : builder.known.lookup stored = some index) :
    (stored, index) ∈ builder.known := by
  obtain ⟨before, after, split, -⟩ := List.lookup_eq_some_iff.mp found
  rw [split]
  exact List.mem_append_cons_self

/-- After an entry was added it is known by the index that was returned. -/
theorem mem_known_add (stored : StoredEntry) (builder : PoolBuilder) :
    (stored, (add stored builder).1) ∈ (add stored builder).2.known := by
  cases found : builder.known.lookup stored with
  | some index =>
    rw [add_of_lookup found]
    exact mem_known_of_lookup found
  | none =>
    rw [add_of_lookup_none found]
    exact List.mem_cons_self

theorem Sound.lt_next (sound : builder.Sound) {index : Nat}
    (known : (stored, index) ∈ builder.known) : index < builder.next :=
  Nat.lt_of_le_of_lt (sound.stands _ known).le (sound.next ▸ Nat.lt_succ_self _)

/-- An entry is known by one index. -/
theorem Sound.index_eq (sound : builder.Sound) {index other : Nat}
    (here : (stored, index) ∈ builder.known) (there : (stored, other) ∈ builder.known) :
    index = other :=
  congrArg Prod.snd (List.inj_on_of_nodup_map sound.once here there rfl)

theorem Sound.lookup_eq (sound : builder.Sound) {index : Nat}
    (known : (stored, index) ∈ builder.known) : builder.known.lookup stored = some index := by
  cases found : builder.known.lookup stored with
  | some other => rw [sound.index_eq known (mem_known_of_lookup found)]
  | none => exact absurd rfl (bne_iff_ne.mp (List.lookup_eq_none_iff.mp found _ known))

/-- A new entry keeps a builder sound if it has a meaning. -/
theorem Sound.add (sound : builder.Sound)
    (means : builder.next < 0x10000 → ∃ entry, stored.Means entry) :
    (add stored builder).2.Sound := by
  cases found : builder.known.lookup stored with
  | some index =>
    rw [add_of_lookup found]
    exact sound
  | none =>
    have new : ∀ known ∈ builder.known, stored ≠ known.1 := fun known member =>
      bne_iff_ne.mp (List.lookup_eq_none_iff.mp found known member)
    rw [add_of_lookup_none found]
    refine ⟨?next, ?stands, ?once, ?built⟩
    case next =>
      rw [Array.toList_push, slotCount_append, slotCount_cons, sound.next]
      exact Nat.add_right_comm _ _ _
    case stands =>
      intro known member
      rw [Array.toList_push]
      rcases List.mem_cons.mp member with rfl | member
      · exact ⟨builder.entries.toList, [], rfl, sound.next⟩
      · exact (sound.stands known member).append _
    case once =>
      refine List.nodup_cons.mpr ⟨fun member => ?_, sound.once⟩
      obtain ⟨known, member, same⟩ := List.mem_map.mp member
      exact new known member same.symm
    case built =>
      intro small
      have room : builder.next < 0x10000 := Nat.lt_of_le_of_lt (Nat.le_add_right _ _) small
      obtain ⟨entry, meant⟩ := means room
      have added := (sound.built room).add meant
      rwa [add_of_lookup_none found] at added

theorem Sound.grows_add (sound : builder.Sound)
    (means : builder.next < 0x10000 → ∃ entry, stored.Means entry) :
    builder.Grows (PoolBuilder.add stored builder).2 := by
  have after := sound.add means
  cases found : builder.known.lookup stored with
  | some index =>
    rw [add_of_lookup found] at after ⊢
    exact ⟨after, List.suffix_rfl, Nat.le_refl _⟩
  | none =>
    rw [add_of_lookup_none found] at after ⊢
    exact ⟨after, List.suffix_cons _ _, Nat.le_add_right _ _⟩

/-- What adding an entry does: its index stands for what the entry means. -/
theorem Sound.adds (sound : builder.Sound) {entry : PoolEntry JavaString}
    (means : builder.next < 0x10000 → stored.Means entry) :
    Adds (PoolBuilder.add stored) builder fun pool index => pool.Has index entry := by
  have grows := sound.grows_add fun small => ⟨entry, means small⟩
  have known := mem_known_add stored builder
  refine ⟨grows, grows.sound.lt_next known, fun pool knownIn => ?_, fun later grows' => ?_⟩
  · exact knownIn.has known (means (grows.knownIn knownIn).small)
  · exact add_of_lookup (grows'.sound.lookup_eq (grows'.keeps.mem known))

end PoolBuilder

/-! ## Adding entries that refer to others -/

/-- The bytes of a text can be counted in two bytes. -/
def IsShort (text : String) : Prop := (Text.modifiedUtf8 text).length < 0x10000

instance (text : String) : Decidable (IsShort text) := inferInstanceAs (Decidable (_ < _))

/-- An action and behind it another one, which may use the index that the first returned. -/
theorem Adds.bind {builder : PoolBuilder} {first : Building Nat} {next : Nat → Building Nat}
    {standsFor standsFor' : ConstantPool → Nat → Prop} (here : Adds first builder standsFor)
    (there : Adds (next (first builder).1) (first builder).2 standsFor') :
    Adds (first >>= next) builder fun pool index =>
      standsFor pool (first builder).1 ∧ standsFor' pool index := by
  refine ⟨here.grows.trans there.grows, there.index, fun pool known =>
    ⟨here.found pool (there.grows.knownIn known), there.found pool known⟩, fun later grows => ?_⟩
  show next (first later).1 (first later).2 = _
  rw [here.again later (there.grows.trans grows)]
  exact there.again later grows

theorem Adds.mono {builder : PoolBuilder} {action : Building Nat}
    {standsFor standsFor' : ConstantPool → Nat → Prop} (adds : Adds action builder standsFor)
    (weaker : ∀ pool index, standsFor pool index → standsFor' pool index) :
    Adds action builder standsFor' :=
  ⟨adds.grows, adds.index, fun pool known => weaker pool _ (adds.found pool known), adds.again⟩

namespace PoolBuilder

variable {builder : PoolBuilder} {text name descriptor : String}

theorem Sound.adds_known (sound : builder.Sound) {stored : PoolEntry (List UInt8)}
    {entry : PoolEntry JavaString} (same : withoutText stored = some entry)
    (fit : builder.next < 0x10000 → operandsFit stored = true) :
    Adds (addKnown stored) builder fun pool index => pool.Has index entry :=
  sound.adds fun small => .other (fit small) same

theorem Sound.adds_utf8 (sound : builder.Sound) (short : IsShort text) :
    Adds (utf8 text) builder fun pool index => pool.HasText index text :=
  sound.adds fun _ => .text (Text.spells_modifiedUtf8 text) short

end PoolBuilder

section Referring

variable {builder : PoolBuilder} {first second : Building Nat}
  {standsFor standsFor' : ConstantPool → Nat → Prop}

/-- An entry that refers to another one, which is added before it. -/
theorem Adds.single (used : Adds first builder standsFor) {make : Nat → PoolEntry (List UInt8)}
    {entry : Nat → PoolEntry JavaString}
    (same : ∀ index, withoutText (make index) = some (entry index))
    (fit : ∀ index, index < 0x10000 → operandsFit (make index) = true) :
    Adds (do PoolBuilder.addKnown (make (← first))) builder fun pool index =>
      ∃ used, pool.Has index (entry used) ∧ standsFor pool used := by
  refine (used.bind ?_).mono fun pool index ⟨meaning, slot⟩ => ⟨_, slot, meaning⟩
  exact used.grows.sound.adds_known (same _) fun small => fit _ (Nat.lt_trans used.index small)

/-- An entry that refers to two others, which are added before it. -/
theorem Adds.pair (used : Adds first builder standsFor)
    (used' : Adds second (first builder).2 standsFor') {make : Nat → Nat → PoolEntry (List UInt8)}
    {entry : Nat → Nat → PoolEntry JavaString}
    (same : ∀ index index', withoutText (make index index') = some (entry index index'))
    (fit : ∀ index index', operandsFit (make index index') =
      (decide (index < 0x10000) && decide (index' < 0x10000))) :
    Adds (do let one ← first; PoolBuilder.addKnown (make one (← second))) builder
      fun pool index =>
        ∃ one two, pool.Has index (entry one two) ∧ standsFor pool one ∧ standsFor' pool two := by
  have known := used'.grows.sound.adds_known (same (first builder).1 (second _).1) fun small => by
    have lt := Nat.lt_trans (Nat.lt_of_lt_of_le used.index used'.grows.next) small
    have lt' := Nat.lt_trans used'.index small
    rw [fit, decide_eq_true lt, decide_eq_true lt', Bool.and_self]
  refine Adds.mono (used.bind (used'.bind known)) ?_
  rintro pool index ⟨meaning, meaning', slot⟩
  exact ⟨_, _, slot, meaning, meaning'⟩

end Referring

namespace PoolBuilder

variable {builder : PoolBuilder} {text name descriptor : String}

/-- An entry for a text that is added before it. -/
theorem Sound.adds_naming (sound : builder.Sound) (short : IsShort text)
    {make : Nat → PoolEntry (List UInt8)} {entry : Nat → PoolEntry JavaString}
    (same : ∀ index, withoutText (make index) = some (entry index))
    (fit : ∀ index, operandsFit (make index) = decide (index < 0x10000)) :
    Adds (do addKnown (make (← utf8 text))) builder fun pool index =>
      ∃ used, pool.Has index (entry used) ∧ pool.HasText used text :=
  (sound.adds_utf8 short).single same fun index fits => fit index ▸ decide_eq_true fits

theorem Sound.adds_className (sound : builder.Sound) {name : ClassName}
    (short : IsShort name.text) :
    Adds (className name) builder fun pool index => pool.HasClass index name :=
  sound.adds_naming short (fun _ => rfl) fun _ => rfl

theorem Sound.adds_nameAndType (sound : builder.Sound) (short : IsShort name)
    (short' : IsShort descriptor) :
    Adds (nameAndType name descriptor) builder fun pool index =>
      pool.HasNameAndType index name descriptor := by
  have named := sound.adds_utf8 short
  exact named.pair (named.grows.sound.adds_utf8 short') (fun _ _ => rfl) fun _ _ => rfl

/-- An entry for a member, whose owner and name are added before it. -/
theorem Sound.adds_member (sound : builder.Sound) {member : MemberRef}
    (short : IsShort member.owner.text ∧ IsShort member.name ∧ IsShort member.descriptor)
    {make : Nat → Nat → PoolEntry (List UInt8)} {entry : Nat → Nat → PoolEntry JavaString}
    (same : ∀ owner named, withoutText (make owner named) = some (entry owner named))
    (fit : ∀ owner named, operandsFit (make owner named) =
      (decide (owner < 0x10000) && decide (named < 0x10000))) :
    Adds (PoolBuilder.member make member) builder fun pool index =>
      ∃ owner named, pool.Has index (entry owner named) ∧ pool.HasMember owner named member := by
  have owned := sound.adds_className short.1
  have named := owned.grows.sound.adds_nameAndType short.2.1 short.2.2
  exact (owned.pair named same fit).mono fun _ _ ⟨_, _, slot, owner, named⟩ =>
    ⟨_, _, slot, owner, named⟩

end PoolBuilder

/-! ## Calls -/

/-- A call that adds something to a pool, with what is to be added. -/
inductive PoolCall where
  | utf8 (text : String)
  | integer (value : Int32)
  | float (bits : UInt32)
  | long (value : Int64)
  | double (bits : UInt64)
  | className (name : ClassName)
  | string (text : String)
  | nameAndType (name descriptor : String)
  | fieldRef (member : MemberRef)
  | methodRef (member : MemberRef)
  | interfaceMethodRef (member : MemberRef)
  | methodHandle (kind reference : Nat)
  | methodType (descriptor : String)
  | invokeDynamic (bootstrap : Nat) (name descriptor : String)
  | add (entry : StoredEntry)

namespace PoolCall

/-- What a call does, and the index that it returns. -/
def run : PoolCall → Building Nat
  | utf8 text => PoolBuilder.utf8 text
  | integer value => PoolBuilder.integer value
  | float bits => PoolBuilder.float bits
  | long value => PoolBuilder.long value
  | double bits => PoolBuilder.double bits
  | className name => PoolBuilder.className name
  | string text => PoolBuilder.stringConstant (.ofString text)
  | nameAndType name descriptor => PoolBuilder.nameAndType name descriptor
  | fieldRef member => PoolBuilder.fieldRef member
  | methodRef member => PoolBuilder.methodRef member
  | interfaceMethodRef member => PoolBuilder.interfaceMethodRef member
  | methodHandle kind reference => PoolBuilder.methodHandle kind reference
  | methodType descriptor => PoolBuilder.methodType descriptor
  | invokeDynamic bootstrap name descriptor => PoolBuilder.invokeDynamic bootstrap name descriptor
  | add entry => PoolBuilder.add entry

/-- The entry that a call adds in the end, after those that this one refers to. -/
def entry : PoolCall → Building StoredEntry
  | utf8 text => return .known (.utf8 (Text.modifiedUtf8 text))
  | integer value => return .known (.integer value)
  | float bits => return .known (.float bits)
  | long value => return .known (.long value)
  | double bits => return .known (.double bits)
  | className name => return .known (.classInfo (← PoolBuilder.utf8 name.text))
  | string text => return .known (.string (← PoolBuilder.utf8 text))
  | nameAndType name descriptor => do
    let name ← PoolBuilder.utf8 name
    return .known (.nameAndType name (← PoolBuilder.utf8 descriptor))
  | fieldRef member => memberEntry .fieldRef member
  | methodRef member => memberEntry .methodRef member
  | interfaceMethodRef member => memberEntry .interfaceMethodRef member
  | methodHandle kind reference => return .known (.methodHandle kind reference)
  | methodType descriptor => return .known (.methodType (← PoolBuilder.utf8 descriptor))
  | invokeDynamic bootstrap name descriptor =>
    return .known (.invokeDynamic bootstrap (← PoolBuilder.nameAndType name descriptor))
  | add entry => return entry
where
  memberEntry (make : Nat → Nat → PoolEntry (List UInt8)) (member : MemberRef) :
      Building StoredEntry := do
    let owner ← PoolBuilder.className member.owner
    return .known (make owner (← PoolBuilder.nameAndType member.name member.descriptor))

theorem run_eq (call : PoolCall) : call.run = call.entry >>= PoolBuilder.add := by
  cases call <;> rfl

/-- What a call adds can be stored: texts can be counted and operands fit, and an entry that is
given as it is means something. -/
def Storable : PoolCall → Prop
  | utf8 text | string text | methodType text => IsShort text
  | integer _ | float _ | long _ | double _ => True
  | className name => IsShort name.text
  | nameAndType name descriptor => IsShort name ∧ IsShort descriptor
  | fieldRef member | methodRef member | interfaceMethodRef member =>
    IsShort member.owner.text ∧ IsShort member.name ∧ IsShort member.descriptor
  | methodHandle kind reference => kind < 0x100 ∧ reference < 0x10000
  | invokeDynamic bootstrap name descriptor =>
    bootstrap < 0x10000 ∧ IsShort name ∧ IsShort descriptor
  | add entry => ∃ meant, entry.Means meant

/-- What a call added is found in a pool at an index, by the accessor that is made for it. -/
def FoundAt (pool : ConstantPool) (index : Nat) : PoolCall → Prop
  | utf8 text => pool.utf8At index = .ok (.ofString text)
  | integer value => pool.integerAt index = .ok value
  | float bits => pool.floatAt index = .ok bits
  | long value => pool.longAt index = .ok value
  | double bits => pool.doubleAt index = .ok bits
  | className name => pool.classNameAt index = .ok name
  | string text => pool.stringAt index = .ok (.ofString text)
  | nameAndType name descriptor => pool.nameAndTypeAt index = .ok (name, descriptor)
  | fieldRef member => pool.fieldRefAt index = .ok member
  | methodRef member => pool.methodRefAt index = .ok (member, false)
  | interfaceMethodRef member =>
    pool.interfaceMethodRefAt index = .ok member ∧ pool.methodRefAt index = .ok (member, true)
  | methodHandle kind reference => pool.get index = .ok (.methodHandle kind reference)
  | methodType descriptor =>
    ∃ text, pool.get index = .ok (.methodType text) ∧ pool.textAt text = .ok descriptor
  | invokeDynamic bootstrap name descriptor =>
    ∃ named, pool.get index = .ok (.invokeDynamic bootstrap named) ∧
      pool.nameAndTypeAt named = .ok (name, descriptor)
  | add entry => ∀ meant, entry.Means meant → pool.get index = .ok meant

/-- What one call does. -/
theorem adds {call : PoolCall} {builder : PoolBuilder} (sound : builder.Sound)
    (storable : call.Storable) :
    Adds call.run builder fun pool index => call.FoundAt pool index := by
  cases call with
  | utf8 text => exact (sound.adds_utf8 storable).mono fun _ _ has => has.utf8At
  | integer value =>
    exact (sound.adds_known rfl fun _ => rfl).mono fun _ _ has => has.integerAt
  | float bits => exact (sound.adds_known rfl fun _ => rfl).mono fun _ _ has => has.floatAt
  | long value => exact (sound.adds_known rfl fun _ => rfl).mono fun _ _ has => has.longAt
  | double bits => exact (sound.adds_known rfl fun _ => rfl).mono fun _ _ has => has.doubleAt
  | className name => exact (sound.adds_className storable).mono fun _ _ has => has.classNameAt
  | string text =>
    exact (sound.adds_naming storable (fun _ => rfl) fun _ => rfl).mono
      fun _ _ ⟨_, slot, text⟩ => slot.stringAt text
  | nameAndType name descriptor =>
    exact (sound.adds_nameAndType storable.1 storable.2).mono fun _ _ has => has.nameAndTypeAt
  | fieldRef member =>
    exact (sound.adds_member storable (fun _ _ => rfl) fun _ _ => rfl).mono
      fun _ _ ⟨_, _, slot, has⟩ => slot.fieldRefAt has
  | methodRef member =>
    exact (sound.adds_member storable (fun _ _ => rfl) fun _ _ => rfl).mono
      fun _ _ ⟨_, _, slot, has⟩ => slot.methodRefAt has
  | interfaceMethodRef member =>
    exact (sound.adds_member storable (fun _ _ => rfl) fun _ _ => rfl).mono
      fun _ _ ⟨_, _, slot, has⟩ => ⟨slot.interfaceMethodRefAt has, slot.methodRefAt_interface has⟩
  | methodHandle kind reference =>
    refine Adds.mono ?_ fun _ _ has => ConstantPool.get_eq_ok.mpr has
    exact sound.adds_known rfl fun _ => Bool.and_eq_true_iff.mpr
      ⟨decide_eq_true storable.1, decide_eq_true storable.2⟩
  | methodType descriptor =>
    exact (sound.adds_naming storable (fun _ => rfl) fun _ => rfl).mono
      fun _ _ ⟨_, slot, text⟩ => ⟨_, ConstantPool.get_eq_ok.mpr slot, text.textAt⟩
  | invokeDynamic bootstrap name descriptor =>
    obtain ⟨fits, short, short'⟩ := storable
    have named := sound.adds_nameAndType short short'
    refine Adds.mono (named.single (fun _ => rfl) fun _ fits' => ?_)
      fun _ _ ⟨_, slot, named⟩ => ⟨_, ConstantPool.get_eq_ok.mpr slot, named.nameAndTypeAt⟩
    exact Bool.and_eq_true_iff.mpr ⟨decide_eq_true fits, decide_eq_true fits'⟩
  | add entry =>
    obtain ⟨meant, means⟩ := storable
    refine (sound.adds fun _ => means).mono fun pool index has other means' => ?_
    exact ConstantPool.get_eq_ok.mpr (means.unique means' ▸ has)

end PoolCall

/-! ## Sequences of calls -/

/-- One of the calls that were made: what it added in the end, and the index that it returned. -/
structure Made where
  call : PoolCall
  added : StoredEntry
  index : Nat

/-- Makes calls one after the other. -/
def perform : List PoolCall → PoolBuilder → List Made × PoolBuilder
  | [], builder => ([], builder)
  | call :: calls, builder =>
    let (made, last) := perform calls (call.run builder).2
    (⟨call, (call.entry builder).1, (call.run builder).1⟩ :: made, last)

/-- The calls that were made are those that were to be made. -/
theorem map_call_perform (calls : List PoolCall) (builder : PoolBuilder) :
    (perform calls builder).1.map Made.call = calls := by
  induction calls generalizing builder with
  | nil => rfl
  | cons call calls ih => exact congrArg (call :: ·) (ih _)

/-- The indices are those that the calls return. -/
theorem map_index_perform (calls : List PoolCall) (builder : PoolBuilder) :
    (calls.mapM PoolCall.run).run builder =
      ((perform calls builder).1.map Made.index, (perform calls builder).2) := by
  induction calls generalizing builder with
  | nil => rfl
  | cons call calls ih =>
    rw [List.mapM_cons]
    show (do let (indices, last) ← (calls.mapM PoolCall.run).run (call.run builder).2
             return ((call.run builder).1 :: indices, last)) = _
    rw [ih]
    rfl

/-- What a sequence of calls does: the builder grows, it knows what every call added by the index
that this call returned, the index is right for every pool that has what is known, and the call
would return it again. -/
structure Performed (before after : PoolBuilder) (made : List Made) : Prop where
  grows : before.Grows after
  known : ∀ one ∈ made, (one.added, one.index) ∈ after.known
  found : ∀ pool, after.KnownIn pool → ∀ one ∈ made, one.call.FoundAt pool one.index
  again : ∀ one ∈ made, one.call.run after = (one.index, after)

theorem performed {calls : List PoolCall} {builder : PoolBuilder} (sound : builder.Sound)
    (storable : ∀ call ∈ calls, call.Storable) :
    Performed builder (perform calls builder).2 (perform calls builder).1 := by
  induction calls generalizing builder with
  | nil =>
    exact ⟨sound.grows, List.forall_mem_nil _, fun _ _ => List.forall_mem_nil _,
      List.forall_mem_nil _⟩
  | cons call calls ih =>
    obtain ⟨here, others⟩ := List.forall_mem_cons.mp storable
    have adds := call.adds sound here
    have rest := ih adds.grows.sound others
    refine ⟨adds.grows.trans rest.grows, ?known, ?found,
      List.forall_mem_cons.mpr ⟨adds.again _ rest.grows, rest.again⟩⟩
    case known =>
      refine List.forall_mem_cons.mpr ⟨rest.grows.keeps.mem ?_, rest.known⟩
      rw [call.run_eq]
      exact PoolBuilder.mem_known_add _ _
    case found =>
      intro pool known
      exact List.forall_mem_cons.mpr
        ⟨adds.found pool (rest.grows.knownIn known), rest.found pool known⟩

/-- A pool that a builder holds has everything that the builder knows. -/
theorem PoolBuilder.Sound.knownIn {builder : PoolBuilder} {pool : ConstantPool}
    (sound : builder.Sound) (holds : builder.Holds pool) : builder.KnownIn pool := by
  obtain ⟨⟨entries, means, rfl⟩, next, small⟩ := holds
  refine ⟨next ▸ small, fun member meant => ?_⟩
  rw [ConstantPool.Has, List.getElem?_toArray]
  exact (sound.stands _ member).getElem? means meant

/-- **The indices that a builder returns are right for the pool that is read.**  After any calls
that add what can be stored, and as long as their slots can be counted, the bytes of the builder
are read as a pool with as many slots.  What a call added is found in it at the index that the
call returned, whatever was added before and after.  Two calls returned the same index if and only
if they added equal entries, and in particular if they are the same call. -/
theorem found_of_perform {calls : List PoolCall} (storable : ∀ call ∈ calls, call.Storable)
    (small : (perform calls .empty).2.count ≤ 0xffff) :
    (perform calls .empty).1.map Made.call = calls ∧
    (calls.mapM PoolCall.run).run .empty =
      ((perform calls .empty).1.map Made.index, (perform calls .empty).2) ∧
    ∃ pool, ConstantPool.read.Takes (perform calls .empty).2.bytes pool ∧
      pool.count = (perform calls .empty).2.count ∧
      (∀ made ∈ (perform calls .empty).1, made.call.FoundAt pool made.index) ∧
      ∀ one ∈ (perform calls .empty).1, ∀ other ∈ (perform calls .empty).1,
        (one.index = other.index ↔ one.added = other.added) ∧
          (one.call = other.call → one.index = other.index) := by
  have performed := performed PoolBuilder.sound_empty storable
  have sound := performed.grows.sound
  have small := Nat.lt_succ_of_le small
  obtain ⟨pool, holds⟩ := (sound.built small).holds small
  refine ⟨map_call_perform calls .empty, map_index_perform calls .empty, pool,
    takes_readPool holds, holds.next.symm, performed.found pool (sound.knownIn holds),
    fun one member other member' => ?_⟩
  have here := performed.known one member
  have there := performed.known other member'
  refine ⟨⟨fun same => ?_, fun same => ?_⟩, fun same => ?_⟩
  · exact (sound.stands _ here).unique (same ▸ sound.stands _ there)
  · exact sound.index_eq here (same ▸ there)
  · have index := (performed.again one member).symm.trans (same ▸ performed.again other member')
    exact congrArg Prod.fst index

/-- Calls of several kinds, some of them twice, and two numbers of two slots between them. -/
def someCalls : List PoolCall :=
  [.className ⟨"A"⟩, .long 5, .fieldRef ⟨⟨"A"⟩, "x", "I"⟩, .double 0, .utf8 "A",
    .interfaceMethodRef ⟨⟨"A"⟩, "x", "()I"⟩, .className ⟨"A"⟩, .add (.known (.classInfo 1))]

theorem found_of_perform_someCalls :
    ((∀ call ∈ someCalls, call.Storable) ∧ (perform someCalls .empty).2.count ≤ 0xffff) ∧
      (perform someCalls .empty).1.map Made.index = [2, 3, 8, 9, 1, 13, 2, 2] ∧
      ∃ pool, ConstantPool.read.Takes (perform someCalls .empty).2.bytes pool ∧
        ∀ made ∈ (perform someCalls .empty).1, made.call.FoundAt pool made.index := by
  have storable : ∀ call ∈ someCalls, call.Storable := by
    simp only [someCalls, List.forall_mem_cons, PoolCall.Storable]
    exact ⟨by decide, trivial, by decide, trivial, by decide, by decide, by decide,
      ⟨_, .other rfl rfl⟩, List.forall_mem_nil _⟩
  have small : (perform someCalls .empty).2.count ≤ 0xffff := by decide
  obtain ⟨-, -, pool, takes, -, found, -⟩ := found_of_perform storable small
  exact ⟨⟨storable, small⟩, by decide, pool, takes, found⟩

/-- An entry for a text with bytes that spell nothing is added like any other, and the pool cannot
be read. -/
theorem read_of_add_undecodable :
    let calls : List PoolCall := [.className ⟨"A"⟩, .add (.known (.utf8 [0xff]))]
    (perform calls .empty).2.count ≤ 0xffff ∧
      ∀ result, ConstantPool.read ⟨0, (perform calls .empty).2.bytes⟩ ≠ .ok result := by
  refine ⟨by decide, fun result read => ?_⟩
  have fails : (ConstantPool.read ⟨0, (perform [.className ⟨"A"⟩, .add (.known (.utf8 [0xff]))]
    .empty).2.bytes⟩).isOk = false := by decide
  rw [read] at fails
  cases fails

end Bytescript.Assembly
