import Bytescript.Proofs.ClassFile.Slots

/-!
# What the accessors say

An accessor looks at the entry at an index, and asks further accessors for the indices that this
entry refers to, one after the other.  It reaches what it asks for, as long as everything that it
asked for before was there.  So it fails in one of three ways, each at an index that it reached:
there is no entry, the entry is of another kind, or it is a string with a lone surrogate where a
text is needed.  Otherwise it gives the value that is stored.

What an accessor asks for is always of a lower level, whatever the indices are.  Entries that refer
to each other in a circle, or to themselves, can therefore not lead it around: at the second place
of the circle at the latest, the entry is of another kind than the one that is needed.
-/

set_option autoImplicit false

namespace Bytescript.ConstantPool

open Binary

/-! ## Accessors -/

/-- The accessors: one for entries of all kinds, and one for each kind of value. -/
inductive Access where
  | entry
  | utf8
  | text
  | className
  | nameAndType
  | integer
  | float
  | long
  | double
  | string
  | fieldRef
  | methodRef
  | interfaceMethodRef
  | loadable
  | constant

/-- An accessor at an index. -/
structure Query where
  access : Access
  index : Nat

namespace Access

/-- What an accessor gives. -/
@[reducible]
def Value : Access → Type
  | entry => PoolEntry JavaString
  | utf8 => JavaString
  | text => String
  | className => ClassName
  | nameAndType => String × String
  | integer => Int32
  | float => UInt32
  | long => Int64
  | double => UInt64
  | string => JavaString
  | fieldRef => MemberRef
  | methodRef => MemberRef × Bool
  | interfaceMethodRef => MemberRef
  | loadable => Loadable
  | constant => Constant

/-- Uses an accessor. -/
def ask (pool : ConstantPool) (index : Nat) : (access : Access) → Except Failure access.Value
  | entry => pool.get index
  | utf8 => pool.utf8At index
  | text => pool.textAt index
  | className => pool.classNameAt index
  | nameAndType => pool.nameAndTypeAt index
  | integer => pool.integerAt index
  | float => pool.floatAt index
  | long => pool.longAt index
  | double => pool.doubleAt index
  | string => pool.stringAt index
  | fieldRef => pool.fieldRefAt index
  | methodRef => pool.methodRefAt index
  | interfaceMethodRef => pool.interfaceMethodRefAt index
  | loadable => pool.loadableAt index
  | constant => pool.constantAt index

/-- How an accessor names what it needs, if it does not take everything. -/
def expected? : Access → Option String
  | entry => none
  | utf8 | text => some "Utf8"
  | className => some "Class"
  | nameAndType => some "NameAndType"
  | integer => some "Integer"
  | float => some "Float"
  | long => some "Long"
  | double => some "Double"
  | string => some "String"
  | fieldRef => some "Fieldref"
  | methodRef => some "Methodref"
  | interfaceMethodRef => some "InterfaceMethodref"
  | loadable => some "loadable constant"
  | constant => some "constant value"

/-- What an accessor asks for when it finds an entry, in this order, or nothing at all if the entry
is not of a kind that it takes. -/
def follows? : Access → PoolEntry JavaString → Option (List Query)
  | entry, _ => some []
  | utf8, .utf8 _ => some []
  | text, .utf8 _ => some []
  | className, .classInfo name => some [⟨text, name⟩]
  | nameAndType, .nameAndType name descriptor => some [⟨text, name⟩, ⟨text, descriptor⟩]
  | integer, .integer _ => some []
  | float, .float _ => some []
  | long, .long _ => some []
  | double, .double _ => some []
  | string, .string spelled => some [⟨utf8, spelled⟩]
  | fieldRef, .fieldRef owner member => some [⟨className, owner⟩, ⟨nameAndType, member⟩]
  | methodRef, .methodRef owner member => some [⟨className, owner⟩, ⟨nameAndType, member⟩]
  | methodRef, .interfaceMethodRef owner member =>
    some [⟨className, owner⟩, ⟨nameAndType, member⟩]
  | interfaceMethodRef, .interfaceMethodRef owner member =>
    some [⟨className, owner⟩, ⟨nameAndType, member⟩]
  | loadable, .integer _ => some []
  | loadable, .float _ => some []
  | loadable, .long _ => some []
  | loadable, .double _ => some []
  | loadable, .string spelled => some [⟨utf8, spelled⟩]
  | loadable, .classInfo name => some [⟨text, name⟩]
  | loadable, .methodHandle _ _ => some []
  | loadable, .methodType _ => some []
  | loadable, .dynamic _ _ => some []
  | constant, .integer _ => some []
  | constant, .float _ => some []
  | constant, .long _ => some []
  | constant, .double _ => some []
  | constant, .string spelled => some [⟨utf8, spelled⟩]
  | _, _ => none

/-- How many times an accessor asks further at most. -/
def levels : Access → Nat
  | entry | utf8 | text | integer | float | long | double => 0
  | className | nameAndType | string | loadable | constant => 1
  | fieldRef | methodRef | interfaceMethodRef => 2

/-- An accessor only asks for what is of a lower level. -/
theorem levels_lt {access : Access} {entry : PoolEntry JavaString} {list : List Query}
    (follows : access.follows? entry = some list) :
    ∀ query ∈ list, query.access.levels < access.levels := by
  cases access <;> cases entry <;> cases follows <;> simp [levels]

/-- Whatever does not take everything says what it needs. -/
theorem exists_expected {access : Access} {entry : PoolEntry JavaString}
    (other : access.follows? entry = none) : ∃ expected, access.expected? = some expected := by
  cases access with
  | entry => cases other
  | _ => exact ⟨_, rfl⟩

end Access

/-! ## Stored values -/

variable {pool : ConstantPool} {index : Nat}

/-- An index stands for something that can be loaded. -/
inductive HasLoadable (pool : ConstantPool) (index : Nat) : Loadable → Prop where
  | constant {value : Constant} (stored : pool.HasConstant index value) :
    HasLoadable pool index (.constant value)
  | classLiteral {name : ClassName} (stored : pool.HasClass index name) :
    HasLoadable pool index (.classLiteral name)
  | methodHandle {kind reference : Nat} (slot : pool.Has index (.methodHandle kind reference)) :
    HasLoadable pool index (.methodHandle index)
  | methodType {descriptor : Nat} (slot : pool.Has index (.methodType descriptor)) :
    HasLoadable pool index (.methodType index)
  | dynamic {bootstrap nameAndType : Nat} (slot : pool.Has index (.dynamic bootstrap nameAndType)) :
    HasLoadable pool index (.dynamic index)

/-- An index stands for a member, by an entry of a kind that refers to members. -/
def HasMemberAt (pool : ConstantPool) (index : Nat)
    (kind : Nat → Nat → PoolEntry JavaString) (member : MemberRef) : Prop :=
  ∃ owner nameAndType, pool.Has index (kind owner nameAndType) ∧
    pool.HasMember owner nameAndType member

/-- The value that is stored for an accessor at an index. -/
def Access.Gives (pool : ConstantPool) (index : Nat) : (access : Access) → access.Value → Prop
  | entry, value => pool.Has index value
  | utf8, value => pool.Has index (.utf8 value)
  | text, value => pool.HasText index value
  | className, value => pool.HasClass index value
  | nameAndType, value => pool.HasNameAndType index value.1 value.2
  | integer, value => pool.Has index (.integer value)
  | float, bits => pool.Has index (.float bits)
  | long, value => pool.Has index (.long value)
  | double, bits => pool.Has index (.double bits)
  | string, value => pool.HasConstant index (.string value)
  | fieldRef, value => pool.HasMemberAt index .fieldRef value
  | methodRef, (value, false) => pool.HasMemberAt index .methodRef value
  | methodRef, (value, true) => pool.HasMemberAt index .interfaceMethodRef value
  | interfaceMethodRef, value => pool.HasMemberAt index .interfaceMethodRef value
  | loadable, value => pool.HasLoadable index value
  | constant, value => pool.HasConstant index value

theorem utf8At_eq_ok {string : JavaString} :
    pool.utf8At index = .ok string ↔ pool.Has index (.utf8 string) := by
  refine ⟨fun found => ?_, Has.utf8At⟩
  obtain ⟨entry, slot, taken⟩ := bind_eq_ok.mp found
  cases entry with
  | utf8 text =>
    cases taken
    exact get_eq_ok.mp slot
  | _ => cases taken

theorem textAt_eq_ok {text : String} : pool.textAt index = .ok text ↔ pool.HasText index text := by
  refine ⟨fun found => ?_, HasText.textAt⟩
  obtain ⟨string, slot, taken⟩ := bind_eq_ok.mp found
  cases spelled : string.toString? with
  | none =>
    rw [spelled] at taken
    cases taken
  | some text =>
    rw [spelled] at taken
    cases taken
    rw [HasText, ← JavaString.toString?_eq_some.mp spelled]
    exact utf8At_eq_ok.mp slot

theorem classNameAt_eq_ok {name : ClassName} :
    pool.classNameAt index = .ok name ↔ pool.HasClass index name := by
  refine ⟨fun found => ?_, HasClass.classNameAt⟩
  obtain ⟨entry, slot, taken⟩ := bind_eq_ok.mp found
  cases entry with
  | classInfo text =>
    obtain ⟨_, named, same⟩ := bind_eq_ok.mp taken
    cases same
    exact ⟨text, get_eq_ok.mp slot, textAt_eq_ok.mp named⟩
  | _ => cases taken

theorem nameAndTypeAt_eq_ok {name descriptor : String} :
    pool.nameAndTypeAt index = .ok (name, descriptor) ↔
      pool.HasNameAndType index name descriptor := by
  refine ⟨fun found => ?_, HasNameAndType.nameAndTypeAt⟩
  obtain ⟨entry, slot, taken⟩ := bind_eq_ok.mp found
  cases entry with
  | nameAndType named described =>
    obtain ⟨_, first, taken⟩ := bind_eq_ok.mp taken
    obtain ⟨_, second, same⟩ := bind_eq_ok.mp taken
    cases same
    exact ⟨named, described, get_eq_ok.mp slot, textAt_eq_ok.mp first, textAt_eq_ok.mp second⟩
  | _ => cases taken

theorem memberAt_eq_ok {owner nameAndType : Nat} {member : MemberRef} :
    pool.memberAt owner nameAndType = .ok member ↔ pool.HasMember owner nameAndType member := by
  refine ⟨fun found => ?_, HasMember.memberAt⟩
  obtain ⟨_, first, taken⟩ := bind_eq_ok.mp found
  obtain ⟨_, second, same⟩ := bind_eq_ok.mp taken
  cases same
  exact ⟨classNameAt_eq_ok.mp first, nameAndTypeAt_eq_ok.mp second⟩

/-- A string entry gives the string that it refers to. -/
theorem stringAt_eq_ok {string : JavaString} :
    pool.stringAt index = .ok string ↔ pool.HasConstant index (.string string) := by
  constructor
  · intro found
    obtain ⟨entry, slot, taken⟩ := bind_eq_ok.mp found
    cases entry with
    | string text => exact .string (get_eq_ok.mp slot) (utf8At_eq_ok.mp taken)
    | _ => cases taken
  · rintro (_ | _ | _ | _ | ⟨slot, spelled⟩)
    exact slot.stringAt spelled

theorem constantAt_eq_ok {constant : Constant} :
    pool.constantAt index = .ok constant ↔ pool.HasConstant index constant := by
  refine ⟨fun found => ?_, HasConstant.constantAt⟩
  obtain ⟨entry, slot, taken⟩ := bind_eq_ok.mp found
  have slot := get_eq_ok.mp slot
  cases entry with
  | integer =>
    cases taken
    exact .integer slot
  | float =>
    cases taken
    exact .float slot
  | long =>
    cases taken
    exact .long slot
  | double =>
    cases taken
    exact .double slot
  | string =>
    obtain ⟨_, spelled, same⟩ := bind_eq_ok.mp taken
    cases same
    exact stringAt_eq_ok.mp spelled
  | _ => cases taken

theorem HasLoadable.loadableAt {loadable : Loadable} (has : pool.HasLoadable index loadable) :
    pool.loadableAt index = .ok loadable := by
  cases has with
  | constant stored =>
    cases stored with
    | integer slot | float slot | long slot | double slot =>
      exact bind_eq_ok.mpr ⟨_, get_eq_ok.mpr slot, rfl⟩
    | string slot spelled =>
      exact bind_eq_ok.mpr ⟨_, get_eq_ok.mpr slot,
        bind_eq_ok.mpr ⟨_, slot.stringAt spelled, rfl⟩⟩
  | classLiteral stored =>
    have named := stored.classNameAt
    obtain ⟨_, slot, -⟩ := stored
    exact bind_eq_ok.mpr ⟨_, get_eq_ok.mpr slot, bind_eq_ok.mpr ⟨_, named, rfl⟩⟩
  | methodHandle slot | methodType slot | dynamic slot =>
    exact bind_eq_ok.mpr ⟨_, get_eq_ok.mpr slot, rfl⟩

theorem loadableAt_eq_ok {loadable : Loadable} :
    pool.loadableAt index = .ok loadable ↔ pool.HasLoadable index loadable := by
  refine ⟨fun found => ?_, HasLoadable.loadableAt⟩
  obtain ⟨entry, slot, taken⟩ := bind_eq_ok.mp found
  have slot := get_eq_ok.mp slot
  cases entry with
  | integer =>
    cases taken
    exact .constant (.integer slot)
  | float =>
    cases taken
    exact .constant (.float slot)
  | long =>
    cases taken
    exact .constant (.long slot)
  | double =>
    cases taken
    exact .constant (.double slot)
  | string =>
    obtain ⟨_, spelled, same⟩ := bind_eq_ok.mp taken
    cases same
    exact .constant (stringAt_eq_ok.mp spelled)
  | classInfo =>
    obtain ⟨_, named, same⟩ := bind_eq_ok.mp taken
    cases same
    exact .classLiteral (classNameAt_eq_ok.mp named)
  | methodHandle =>
    cases taken
    exact .methodHandle slot
  | methodType =>
    cases taken
    exact .methodType slot
  | dynamic =>
    cases taken
    exact .dynamic slot
  | _ => cases taken

theorem fieldRefAt_eq_ok {member : MemberRef} :
    pool.fieldRefAt index = .ok member ↔ pool.HasMemberAt index .fieldRef member := by
  refine ⟨fun found => ?_, fun ⟨_, _, slot, stored⟩ => slot.fieldRefAt stored⟩
  obtain ⟨entry, slot, taken⟩ := bind_eq_ok.mp found
  cases entry with
  | fieldRef => exact ⟨_, _, get_eq_ok.mp slot, memberAt_eq_ok.mp taken⟩
  | _ => cases taken

theorem interfaceMethodRefAt_eq_ok {member : MemberRef} :
    pool.interfaceMethodRefAt index = .ok member ↔
      pool.HasMemberAt index .interfaceMethodRef member := by
  refine ⟨fun found => ?_, fun ⟨_, _, slot, stored⟩ => slot.interfaceMethodRefAt stored⟩
  obtain ⟨entry, slot, taken⟩ := bind_eq_ok.mp found
  cases entry with
  | interfaceMethodRef => exact ⟨_, _, get_eq_ok.mp slot, memberAt_eq_ok.mp taken⟩
  | _ => cases taken

/-- Both kinds of methods are found, and which of them it was is said. -/
theorem methodRefAt_eq_ok {method : MemberRef × Bool} :
    pool.methodRefAt index = .ok method ↔ Access.methodRef.Gives pool index method := by
  constructor
  · intro found
    obtain ⟨entry, slot, taken⟩ := bind_eq_ok.mp found
    cases entry with
    | methodRef | interfaceMethodRef =>
      obtain ⟨_, named, same⟩ := bind_eq_ok.mp taken
      cases same
      exact ⟨_, _, get_eq_ok.mp slot, memberAt_eq_ok.mp named⟩
    | _ => cases taken
  · intro stored
    obtain ⟨member, isInterface⟩ := method
    cases isInterface with
    | false =>
      obtain ⟨_, _, slot, found⟩ := stored
      exact slot.methodRefAt found
    | true =>
      obtain ⟨_, _, slot, found⟩ := stored
      exact slot.methodRefAt_interface found

/-- An accessor gives a value if and only if that is the one that is stored for it. -/
theorem Access.ask_eq_ok {access : Access} {value : access.Value} :
    access.ask pool index = .ok value ↔ access.Gives pool index value := by
  cases access with
  | entry => exact get_eq_ok
  | utf8 => exact utf8At_eq_ok
  | text => exact textAt_eq_ok
  | className => exact classNameAt_eq_ok
  | nameAndType => exact nameAndTypeAt_eq_ok
  | integer | float | long | double =>
    refine ⟨fun found => ?_, fun has => bind_eq_ok.mpr ⟨_, get_eq_ok.mpr has, rfl⟩⟩
    obtain ⟨entry, slot, taken⟩ := bind_eq_ok.mp found
    cases entry <;> cases taken
    exact get_eq_ok.mp slot
  | string => exact stringAt_eq_ok
  | fieldRef => exact fieldRefAt_eq_ok
  | methodRef => exact methodRefAt_eq_ok
  | interfaceMethodRef => exact interfaceMethodRefAt_eq_ok
  | loadable => exact loadableAt_eq_ok
  | constant => exact constantAt_eq_ok

/-! ## What is reached -/

/-- The answer of an accessor at its index. -/
def Query.answer (pool : ConstantPool) (query : Query) : Except Failure query.access.Value :=
  query.access.ask pool query.index

/-- Something is stored for an accessor at its index. -/
def Query.Resolves (pool : ConstantPool) (query : Query) : Prop :=
  ∃ value, query.access.Gives pool query.index value

/-- An accessor reaches itself, and what is reached from anything that it asks for after the others
before that could be resolved. -/
inductive Reaches (pool : ConstantPool) : Query → Query → Prop where
  | here {query : Query} : Reaches pool query query
  | further {query next last : Query} {entry : PoolEntry JavaString} {before after : List Query}
    (slot : pool.Has query.index entry)
    (follows : query.access.follows? entry = some (before ++ next :: after))
    (earlier : ∀ other ∈ before, other.Resolves pool) (rest : Reaches pool next last) :
    Reaches pool query last

/-- What is asked for first is reached in any case. -/
theorem Reaches.first {query next last : Query} {entry : PoolEntry JavaString}
    {after : List Query} (slot : pool.Has query.index entry)
    (follows : query.access.follows? entry = some (next :: after))
    (rest : pool.Reaches next last) : pool.Reaches query last :=
  @Reaches.further pool query next last entry [] after slot follows (List.forall_mem_nil _) rest

/-- Whatever is reached further on is of a lower level, so nothing is reached in a circle. -/
theorem Reaches.levels_lt {query last : Query} (reaches : pool.Reaches query last) :
    last = query ∨ last.access.levels < query.access.levels := by
  induction reaches with
  | here => exact .inl rfl
  | further _ follows _ _ ih =>
    have lower := Access.levels_lt follows _ List.mem_append_cons_self
    rcases ih with rfl | further
    · exact .inr lower
    · exact .inr (Nat.lt_trans further lower)

/-- What can be wrong at the index of an accessor itself. -/
inductive Fault (pool : ConstantPool) : Query → DecodeError → Prop where
  | missing {query : Query} (empty : ∀ entry, ¬ pool.Has query.index entry) :
    Fault pool query (.poolIndexOutOfRange query.index pool.count)
  | otherKind {query : Query} {entry : PoolEntry JavaString} {expected : String}
    (slot : pool.Has query.index entry) (other : query.access.follows? entry = none)
    (expects : query.access.expected? = some expected) :
    Fault pool query (.poolTagMismatch query.index expected entry.kind)
  | noText {index : Nat} {string : JavaString} (slot : pool.Has index (.utf8 string))
    (lone : string.toString? = none) : Fault pool ⟨.text, index⟩ (.malformedUtf8 index)

/-! ## Asking one after the other -/

/-- A result is put together from the answers of some accessors, in order. -/
inductive Chained (pool : ConstantPool) {α : Type} : List Query → Except Failure α → Prop where
  | done (value : α) : Chained pool [] (.ok value)
  | step {query : Query} {queries : List Query} {next : query.access.Value → Except Failure α}
    (rest : ∀ value, Chained pool queries (next value)) :
    Chained pool (query :: queries) (query.answer pool >>= next)

section Chained

variable {α : Type} {queries : List Query} {result : Except Failure α}

/-- If everything can be resolved, so can the whole. -/
theorem Chained.exists_ok (chained : pool.Chained queries result)
    (all : ∀ query ∈ queries, query.Resolves pool) : ∃ value, result = .ok value := by
  induction chained with
  | done value => exact ⟨value, rfl⟩
  | step _ ih =>
    obtain ⟨⟨value, stored⟩, others⟩ := List.forall_mem_cons.mp all
    obtain ⟨whole, computed⟩ := ih value others
    exact ⟨whole, bind_eq_ok.mpr ⟨value, Access.ask_eq_ok.mpr stored, computed⟩⟩

/-- The first accessor that fails makes the whole fail. -/
theorem Chained.error {before after : List Query} {query : Query} {failure : Failure}
    (chained : pool.Chained (before ++ query :: after) result)
    (earlier : ∀ other ∈ before, other.Resolves pool)
    (fails : query.answer pool = .error failure) : result = .error failure := by
  induction before generalizing result with
  | nil =>
    cases chained
    exact bind_eq_error.mpr (.inl fails)
  | cons first before ih =>
    obtain ⟨⟨value, stored⟩, others⟩ := List.forall_mem_cons.mp earlier
    cases chained with
    | step rest =>
      exact bind_eq_error.mpr (.inr ⟨value, Access.ask_eq_ok.mpr stored, ih (rest value) others⟩)

/-- What is made of a result is put together from the same answers. -/
theorem Chained.making {β : Type} (chained : pool.Chained queries result) (make : α → β) :
    pool.Chained queries (result >>= fun value => pure (make value)) := by
  induction chained with
  | done value => exact .done (make value)
  | step _ ih =>
    rw [bind_assoc]
    exact .step ih

theorem chained_answer (query : Query) : pool.Chained [query] (query.answer pool) := by
  rw [← bind_pure (query.answer pool)]
  exact .step .done

/-- What is made of an entry is made of what is looked up. -/
theorem Chained.get {entry : PoolEntry JavaString}
    {next : PoolEntry JavaString → Except Failure α} (slot : pool.Has index entry)
    (chained : pool.Chained queries (next entry)) :
    pool.Chained queries (pool.get index >>= next) := by
  rwa [get_eq_ok.mpr slot]

theorem chained_memberAt (owner nameAndType : Nat) :
    pool.Chained [⟨.className, owner⟩, ⟨.nameAndType, nameAndType⟩]
      (pool.memberAt owner nameAndType) :=
  @Chained.step pool _ ⟨.className, owner⟩ _ _ fun _ =>
    @Chained.step pool _ ⟨.nameAndType, nameAndType⟩ _ _ fun _ => .done _

theorem chained_classNameAt {text : Nat} (slot : pool.Has index (.classInfo text)) :
    pool.Chained [⟨.text, text⟩] (pool.classNameAt index) :=
  .get slot ((chained_answer ⟨.text, text⟩).making ClassName.mk)

theorem chained_nameAndTypeAt {name descriptor : Nat}
    (slot : pool.Has index (.nameAndType name descriptor)) :
    pool.Chained [⟨.text, name⟩, ⟨.text, descriptor⟩] (pool.nameAndTypeAt index) :=
  .get slot (@Chained.step pool _ ⟨.text, name⟩ _ _ fun _ =>
    @Chained.step pool _ ⟨.text, descriptor⟩ _ _ fun _ => .done _)

theorem chained_stringAt {text : Nat} (slot : pool.Has index (.string text)) :
    pool.Chained [⟨.utf8, text⟩] (pool.stringAt index) :=
  .get slot (chained_answer ⟨.utf8, text⟩)

/-- Whatever takes an entry puts its value together from what it asks for.  Texts are left out, as
they may be refused without asking further. -/
theorem chained_ask {access : Access} {entry : PoolEntry JavaString}
    (slot : pool.Has index entry) (noText : access ≠ .text)
    (follows : access.follows? entry = some queries) :
    pool.Chained queries (access.ask pool index) := by
  cases access with
  | text => exact absurd rfl noText
  | entry =>
    cases follows
    show pool.Chained [] (pool.get index)
    rw [get_eq_ok.mpr slot]
    exact .done entry
  | utf8 | integer | float | long | double =>
    refine .get slot ?_
    cases entry <;> cases follows
    exact .done _
  | className =>
    cases entry <;> cases follows
    exact chained_classNameAt slot
  | nameAndType =>
    cases entry <;> cases follows
    exact chained_nameAndTypeAt slot
  | string =>
    cases entry <;> cases follows
    exact chained_stringAt slot
  | fieldRef | interfaceMethodRef =>
    refine .get slot ?_
    cases entry <;> cases follows
    exact chained_memberAt _ _
  | methodRef =>
    refine .get slot ?_
    cases entry with
    | methodRef | interfaceMethodRef =>
      cases follows
      exact (chained_memberAt _ _).making _
    | _ => cases follows
  | loadable =>
    refine .get slot ?_
    cases entry with
    | string =>
      cases follows
      exact (chained_stringAt slot).making _
    | classInfo =>
      cases follows
      exact (chained_classNameAt slot).making _
    | integer | float | long | double | methodHandle | methodType | dynamic =>
      cases follows
      exact .done _
    | _ => cases follows
  | constant =>
    refine .get slot ?_
    cases entry with
    | string =>
      cases follows
      exact (chained_stringAt slot).making _
    | integer | float | long | double =>
      cases follows
      exact .done _
    | _ => cases follows

end Chained

/-! ## Failures -/

/-- A query fails with something that is wrong at a place that it reaches. -/
def Fails (pool : ConstantPool) (query : Query) (error : DecodeError) : Prop :=
  ∃ last, pool.Reaches query last ∧ pool.Fault last error

theorem get_of_missing (empty : ∀ entry, ¬ pool.Has index entry) :
    pool.get index = failDecode (.poolIndexOutOfRange index pool.count) := by
  rw [get]
  split
  next entry here => exact absurd here (empty entry)
  next => rfl

/-- What is wrong at an index is what its accessor says. -/
theorem Fault.answer {query : Query} {error : DecodeError} (fault : pool.Fault query error) :
    query.answer pool = failDecode error := by
  obtain ⟨access, index⟩ := query
  cases fault with
  | missing empty =>
    have failed := get_of_missing empty
    cases access with
    | entry => exact failed
    | text =>
      show (pool.get index >>= _) >>= _ = _
      rw [failed]
      rfl
    | _ =>
      show pool.get index >>= _ = _
      rw [failed]
      rfl
  | @otherKind _ entry _ slot other expects =>
    have found := get_eq_ok.mpr slot
    cases access with
    | entry => cases other
    | text =>
      show (pool.get index >>= _) >>= _ = _
      rw [found]
      cases expects
      cases entry <;> cases other <;> rfl
    | _ =>
      show pool.get index >>= _ = _
      rw [found]
      cases expects
      cases entry <;> cases other <;> rfl
  | noText slot lone => exact bind_eq_error.mpr (.inr ⟨_, slot.utf8At, by rw [lone]; rfl⟩)

/-- A failure that is reached is the answer. -/
theorem Fails.answer {query : Query} {error : DecodeError} (fails : pool.Fails query error) :
    query.answer pool = failDecode error := by
  obtain ⟨last, reaches, fault⟩ := fails
  induction reaches with
  | here => exact fault.answer
  | @further query next _ entry before after slot follows earlier _ ih =>
    refine (chained_ask slot (fun same => ?_) follows).error earlier (ih fault)
    rw [same] at follows
    cases entry <;> simp [Access.follows?] at follows

/-- What fails after everything before it was resolved fails the whole. -/
theorem Fails.further {query next : Query} {entry : PoolEntry JavaString}
    {before after : List Query} {error : DecodeError} (slot : pool.Has query.index entry)
    (follows : query.access.follows? entry = some (before ++ next :: after))
    (earlier : ∀ other ∈ before, other.Resolves pool) (fails : pool.Fails next error) :
    pool.Fails query error := by
  obtain ⟨last, reaches, fault⟩ := fails
  exact ⟨last, .further slot follows earlier reaches, fault⟩

/-- Either everything in a list can be resolved, or there is something that fails first. -/
theorem all_resolve_or_fails {queries : List Query}
    (each : ∀ query ∈ queries, query.Resolves pool ∨ ∃ error, pool.Fails query error) :
    (∀ query ∈ queries, query.Resolves pool) ∨ ∃ before query after error,
      queries = before ++ query :: after ∧ (∀ other ∈ before, other.Resolves pool) ∧
        pool.Fails query error := by
  induction queries with
  | nil => exact .inl (List.forall_mem_nil _)
  | cons first queries ih =>
    rw [List.forall_mem_cons] at each
    rcases each.1 with resolves | ⟨error, fails⟩
    · rcases ih each.2 with all | ⟨before, query, after, error, rfl, earlier, fails⟩
      · exact .inl (List.forall_mem_cons.mpr ⟨resolves, all⟩)
      · exact .inr ⟨first :: before, query, after, error, rfl,
          List.forall_mem_cons.mpr ⟨resolves, earlier⟩, fails⟩
    · exact .inr ⟨[], first, queries, error, rfl, List.forall_mem_nil _, fails⟩

/-- A string is a text or is refused as one. -/
theorem text_resolves_or_fails {string : JavaString} (slot : pool.Has index (.utf8 string)) :
    (Query.mk .text index).Resolves pool ∨ ∃ error, pool.Fails ⟨.text, index⟩ error := by
  cases spelled : string.toString? with
  | none => exact .inr ⟨_, _, .here, .noText slot spelled⟩
  | some text =>
    refine .inl ⟨text, ?_⟩
    rw [JavaString.toString?_eq_some.mp spelled] at slot
    exact slot

/-- **An accessor finds a value or something that is wrong**, as it asks only for what is of a lower
level. -/
theorem resolves_or_fails (query : Query) :
    query.Resolves pool ∨ ∃ error, pool.Fails query error := by
  induction levels : query.access.levels using Nat.strong_induction_on generalizing query with
  | _ level ih =>
    subst levels
    by_cases filled : ∃ entry, pool.Has query.index entry
    · obtain ⟨entry, slot⟩ := filled
      cases follows : query.access.follows? entry with
      | none =>
        obtain ⟨expected, expects⟩ := Access.exists_expected follows
        exact .inr ⟨_, query, .here, .otherKind slot follows expects⟩
      | some queries =>
        by_cases text : query.access = .text
        · obtain ⟨access, index⟩ := query
          cases text
          cases entry <;> cases follows
          exact text_resolves_or_fails slot
        · have chained := chained_ask slot text follows
          rcases all_resolve_or_fails fun next asked =>
              ih _ (Access.levels_lt follows next asked) next rfl with
            all | ⟨before, next, after, error, rfl, earlier, fails⟩
          · obtain ⟨value, found⟩ := chained.exists_ok all
            exact .inl ⟨value, Access.ask_eq_ok.mp found⟩
          · exact .inr ⟨error, fails.further slot follows earlier⟩
    · exact .inr ⟨_, query, .here, .missing (not_exists.mp filled)⟩

theorem failDecode_inj {α : Type} {error error' : DecodeError}
    (same : (failDecode error : Except Failure α) = failDecode error') : error = error' := by
  cases same
  rfl

/-- The failures of an accessor are those at the places that it reaches, and no others. -/
theorem answer_eq_failDecode {query : Query} {error : DecodeError} :
    query.answer pool = failDecode error ↔ pool.Fails query error := by
  refine ⟨fun failed => ?_, Fails.answer⟩
  rcases resolves_or_fails query with ⟨value, stored⟩ | ⟨error', fails⟩
  · have found : query.answer pool = .ok value := Access.ask_eq_ok.mpr stored
    rw [found] at failed
    cases failed
  · exact failDecode_inj (fails.answer.symm.trans failed) ▸ fails

/-- A slot is without an entry if it is unusable, or not there at all. -/
theorem forall_not_has_iff :
    (∀ entry, ¬ pool.Has index entry) ↔ pool.IsUnusable index ∨ pool.count ≤ index := by
  rw [count, ← Array.getElem?_eq_none_iff]
  simp only [Has, IsUnusable]
  cases slot : pool.slots[index]? with
  | none => simp
  | some content => cases content <;> simp

/-! ## Pools that were read -/

/-- What an accessor says at an index. -/
structure Answers (pool : ConstantPool) (query : Query) : Prop where
  /-- A value is given if and only if it is stored. -/
  stored : ∀ value, query.answer pool = .ok value ↔ query.access.Gives pool query.index value
  /-- A slot that was reached is unusable, or there is none. -/
  outOfRange : ∀ index count, query.answer pool = failDecode (.poolIndexOutOfRange index count) ↔
    (∃ access, pool.Reaches query ⟨access, index⟩) ∧
      (pool.IsUnusable index ∨ pool.count ≤ index) ∧ count = pool.count
  /-- An entry that was reached is of another kind than is needed there. -/
  tagMismatch : ∀ index expected found,
    query.answer pool = failDecode (.poolTagMismatch index expected found) ↔
      ∃ access entry, pool.Reaches query ⟨access, index⟩ ∧ pool.Has index entry ∧
        access.follows? entry = none ∧ access.expected? = some expected ∧ found = entry.kind
  /-- A string that was reached is needed as a text, but has a lone surrogate. -/
  malformed : ∀ index, query.answer pool = failDecode (.malformedUtf8 index) ↔
    ∃ string, pool.Reaches query ⟨.text, index⟩ ∧ pool.Has index (.utf8 string) ∧
      string.HasLoneSurrogate
  /-- Nothing else happens. -/
  otherwise : (∃ value, query.answer pool = .ok value) ∨
    (∃ index count, query.answer pool = failDecode (.poolIndexOutOfRange index count)) ∨
      (∃ index expected found,
        query.answer pool = failDecode (.poolTagMismatch index expected found)) ∨
        ∃ index, query.answer pool = failDecode (.malformedUtf8 index)
  /-- Whatever circles there are, each place that is reached is of a lower level than the last. -/
  descends : ∀ last, pool.Reaches query last →
    last = query ∨ last.access.levels < query.access.levels

/-- What accessors say, if the strings of the pool keep no pair of surrogates apart. -/
theorem answers_of_joined
    (joined : ∀ {index string}, pool.Has index (.utf8 string) → string.Joined) (query : Query) :
    pool.Answers query where
  stored value := Access.ask_eq_ok
  outOfRange index count := by
    rw [answer_eq_failDecode]
    constructor
    · rintro ⟨last, reaches, fault⟩
      cases fault with
      | missing empty => exact ⟨⟨last.access, reaches⟩, forall_not_has_iff.mp empty, rfl⟩
    · rintro ⟨⟨access, reaches⟩, empty, rfl⟩
      exact ⟨⟨access, index⟩, reaches, .missing (forall_not_has_iff.mpr empty)⟩
  tagMismatch index expected found := by
    rw [answer_eq_failDecode]
    constructor
    · rintro ⟨last, reaches, fault⟩
      cases fault with
      | otherKind slot other expects =>
        exact ⟨last.access, _, reaches, slot, other, expects, rfl⟩
    · rintro ⟨access, entry, reaches, slot, other, expects, rfl⟩
      exact ⟨⟨access, index⟩, reaches, .otherKind slot other expects⟩
  malformed index := by
    rw [answer_eq_failDecode]
    constructor
    · rintro ⟨last, reaches, fault⟩
      cases fault with
      | noText slot lone =>
        exact ⟨_, reaches, slot, (joined slot).toString?_eq_none_iff.mp lone⟩
    · rintro ⟨string, reaches, slot, lone⟩
      exact ⟨_, reaches, .noText slot ((joined slot).toString?_eq_none_iff.mpr lone)⟩
  otherwise := by
    rcases resolves_or_fails query with ⟨value, stored⟩ | ⟨error, fails⟩
    · exact .inl ⟨value, Access.ask_eq_ok.mpr stored⟩
    · have failed := fails.answer
      obtain ⟨last, -, fault⟩ := fails
      cases fault with
      | missing => exact .inr (.inl ⟨_, _, failed⟩)
      | otherKind => exact .inr (.inr (.inl ⟨_, _, _, failed⟩))
      | noText => exact .inr (.inr (.inr ⟨_, failed⟩))
  descends _ reaches := reaches.levels_lt

/-- **The slots of a pool are laid out as they were counted, and each accessor says what is there.**
A pool that was read has as many slots as its first two bytes say, at least one.  Its entries mean
what the bytes behind them say, one after the other.  Slot zero and the slots behind the entries
that take two are the unusable ones, and the last slot has room for its entry.  At every index, an
accessor gives the value that is stored, or fails at the first place on its way that is unusable or
missing, that has an entry of another kind than is needed, or that has a string with a lone
surrogate where a text is needed.  Circles among the entries do not matter. -/
theorem answers_of_read {cursor after : Cursor} {pool : ConstantPool}
    (read : ConstantPool.read cursor = .ok (pool, after)) :
    (bigEndian (cursor.rest.take 2) = pool.count ∧ 1 ≤ pool.count) ∧
      (∃ bytes, pool.IsSpelledBy bytes ∧ cursor.Passes bytes after) ∧
      (∀ index, pool.IsUnusable index ↔ index = 0 ∨ pool.FollowsWide index) ∧
      (∀ entry, pool.Has (pool.count - 1) entry → entry.isWide = false) ∧
      ∀ query, pool.Answers query := by
  obtain ⟨bytes, spelled, passes⟩ := relates_read _ _ _ read
  refine ⟨⟨?_, spelled.one_le_count⟩, ⟨bytes, spelled, passes⟩, spelled.isUnusable_iff,
    fun entry => spelled.last_isWide, answers_of_joined spelled.joined⟩
  rw [passes.rest]
  exact spelled.bigEndian_take after.rest

/-- A pool with circles and gaps: a class that is its own name, a number with its second slot, a
string with a lone surrogate, a class of that name, a member whose owner is the first class, the
string as a constant, and a class whose name is the second slot of the number. -/
def circularPool : ConstantPool :=
  ⟨#[none, some (.classInfo 1), some (.double 5), none, some (.utf8 ⟨[0xd800]⟩),
    some (.classInfo 4), some (.fieldRef 1 6), some (.string 4), some (.classInfo 3)]⟩

set_option maxRecDepth 1024 in
theorem answers_of_read_circular :
    ConstantPool.read (.start [0, 9, 7, 0, 1, 6, 0, 0, 0, 0, 0, 0, 0, 5, 1, 0, 3, 0xed, 0xa0, 0x80,
        7, 0, 4, 9, 0, 1, 0, 6, 8, 0, 4, 7, 0, 3]) = .ok (circularPool, ⟨34, []⟩) ∧
      circularPool.IsUnusable 3 ∧
      circularPool.stringAt 7 = .ok ⟨[0xd800]⟩ ∧
      circularPool.fieldRefAt 6 = failDecode (.poolTagMismatch 1 "Utf8" "Class") ∧
      circularPool.loadableAt 8 = failDecode (.poolIndexOutOfRange 3 9) ∧
      circularPool.classNameAt 5 = failDecode (.malformedUtf8 4) := by
  have read : ConstantPool.read (.start [0, 9, 7, 0, 1, 6, 0, 0, 0, 0, 0, 0, 0, 5, 1, 0, 3, 0xed,
      0xa0, 0x80, 7, 0, 4, 9, 0, 1, 0, 6, 8, 0, 4, 7, 0, 3]) =
        .ok (circularPool, ⟨34, []⟩) := rfl
  obtain ⟨-, -, unusable, -, answers⟩ := answers_of_read read
  have empty : circularPool.IsUnusable 3 := (unusable 3).mpr (.inr ⟨2, .double 5, rfl, rfl, rfl⟩)
  refine ⟨read, empty, ((answers ⟨.string, 7⟩).stored _).mpr (.string rfl rfl),
    ((answers ⟨.fieldRef, 6⟩).tagMismatch 1 "Utf8" "Class").mpr
      ⟨.text, .classInfo 1, ?_, rfl, rfl, rfl, rfl⟩,
    ((answers ⟨.loadable, 8⟩).outOfRange 3 9).mpr ⟨⟨.text, ?_⟩, .inl empty, rfl⟩,
    ((answers ⟨.className, 5⟩).malformed 4).mpr ⟨⟨[0xd800]⟩, ?_, rfl, ?_⟩⟩
  · exact @Reaches.first _ ⟨.fieldRef, 6⟩ ⟨.className, 1⟩ _ (.fieldRef 1 6) _ rfl rfl
      (@Reaches.first _ ⟨.className, 1⟩ ⟨.text, 1⟩ _ (.classInfo 1) _ rfl rfl .here)
  · exact @Reaches.first _ ⟨.loadable, 8⟩ ⟨.text, 3⟩ _ (.classInfo 3) _ rfl rfl .here
  · exact @Reaches.first _ ⟨.className, 5⟩ ⟨.text, 4⟩ _ (.classInfo 4) _ rfl rfl .here
  · exact ⟨[], 0xd800, [], rfl, rfl, nofun, nofun⟩

end Bytescript.ConstantPool
