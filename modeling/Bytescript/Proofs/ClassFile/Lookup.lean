import Bytescript.ClassFile.Pool
import Bytescript.Proofs.Failure
import Bytescript.Proofs.Text.Utf8

/-!
# What indices stand for

An index into a pool stands for the entry in its slot, and through the references of that entry
for a text, a class or a constant.  Whatever an index stands for is what the accessor gives that
is made for it.
-/

set_option autoImplicit false

namespace Bytescript.ConstantPool

variable {pool : ConstantPool} {index : Nat}

/-! ## Entries -/

/-- The slot at an index holds an entry. -/
def Has (pool : ConstantPool) (index : Nat) (entry : PoolEntry JavaString) : Prop :=
  pool.slots[index]? = some (some entry)

instance (pool : ConstantPool) (index : Nat) (entry : PoolEntry JavaString) :
    Decidable (pool.Has index entry) :=
  inferInstanceAs (Decidable (_ = _))

/-- An index stands for a text. -/
def HasText (pool : ConstantPool) (index : Nat) (text : String) : Prop :=
  pool.Has index (.utf8 (.ofString text))

instance (pool : ConstantPool) (index : Nat) (text : String) :
    Decidable (pool.HasText index text) :=
  inferInstanceAs (Decidable (pool.Has _ _))

/-- An index stands for a class. -/
def HasClass (pool : ConstantPool) (index : Nat) (name : ClassName) : Prop :=
  ∃ text, pool.Has index (.classInfo text) ∧ pool.HasText text name.text

/-- An index stands for a class, or is zero if there is none. -/
def HasClass? (pool : ConstantPool) (index : Nat) : Option ClassName → Prop
  | none => index = 0
  | some name => index ≠ 0 ∧ pool.HasClass index name

/-- An index stands for a name with a descriptor. -/
def HasNameAndType (pool : ConstantPool) (index : Nat) (name descriptor : String) : Prop :=
  ∃ named described, pool.Has index (.nameAndType named described) ∧ pool.HasText named name ∧
    pool.HasText described descriptor

/-- Two indices stand for a member: one for its owner, the other for its name and descriptor. -/
structure HasMember (pool : ConstantPool) (owner nameAndType : Nat) (member : MemberRef) :
    Prop where
  owner : pool.HasClass owner member.owner
  nameAndType : pool.HasNameAndType nameAndType member.name member.descriptor

/-- An index stands for a constant. -/
inductive HasConstant (pool : ConstantPool) (index : Nat) : Constant → Prop where
  | integer {value : Int32} (slot : pool.Has index (.integer value)) :
    HasConstant pool index (.integer value)
  | float {bits : UInt32} (slot : pool.Has index (.float bits)) :
    HasConstant pool index (.float bits)
  | long {value : Int64} (slot : pool.Has index (.long value)) :
    HasConstant pool index (.long value)
  | double {bits : UInt64} (slot : pool.Has index (.double bits)) :
    HasConstant pool index (.double bits)
  | string {text : Nat} {value : JavaString} (slot : pool.Has index (.string text))
    (spelled : pool.Has text (.utf8 value)) : HasConstant pool index (.string value)

/-! ## Accessors -/

theorem get_eq_ok {entry : PoolEntry JavaString} :
    pool.get index = .ok entry ↔ pool.Has index entry := by
  rw [get, Has]
  constructor
  · intro found
    split at found
    next entry' here =>
      cases found
      exact here
    next => cases found
  · intro here
    rw [here]

theorem Has.lt_count {entry : PoolEntry JavaString} (has : pool.Has index entry) :
    index < pool.count :=
  (Array.getElem?_eq_some_iff.mp has).1

theorem Has.utf8At {string : JavaString} (has : pool.Has index (.utf8 string)) :
    pool.utf8At index = .ok string :=
  bind_eq_ok.mpr ⟨_, get_eq_ok.mpr has, rfl⟩

theorem Has.integerAt {value : Int32} (has : pool.Has index (.integer value)) :
    pool.integerAt index = .ok value :=
  bind_eq_ok.mpr ⟨_, get_eq_ok.mpr has, rfl⟩

theorem Has.floatAt {bits : UInt32} (has : pool.Has index (.float bits)) :
    pool.floatAt index = .ok bits :=
  bind_eq_ok.mpr ⟨_, get_eq_ok.mpr has, rfl⟩

theorem Has.longAt {value : Int64} (has : pool.Has index (.long value)) :
    pool.longAt index = .ok value :=
  bind_eq_ok.mpr ⟨_, get_eq_ok.mpr has, rfl⟩

theorem Has.doubleAt {bits : UInt64} (has : pool.Has index (.double bits)) :
    pool.doubleAt index = .ok bits :=
  bind_eq_ok.mpr ⟨_, get_eq_ok.mpr has, rfl⟩

theorem HasText.textAt {text : String} (has : pool.HasText index text) :
    pool.textAt index = .ok text := by
  refine bind_eq_ok.mpr ⟨_, Has.utf8At has, ?_⟩
  rw [JavaString.toString?_ofString]
  rfl

theorem HasClass.lt {name : ClassName} {bound : Nat} (has : pool.HasClass index name)
    (small : pool.count < bound) : index < bound := by
  obtain ⟨_, slot, _⟩ := has
  exact Nat.lt_trans slot.lt_count small

theorem HasClass.classNameAt {name : ClassName} (has : pool.HasClass index name) :
    pool.classNameAt index = .ok name := by
  obtain ⟨text, slot, named⟩ := has
  exact bind_eq_ok.mpr ⟨_, get_eq_ok.mpr slot, bind_eq_ok.mpr ⟨_, named.textAt, rfl⟩⟩

theorem HasText.lt {text : String} {bound : Nat} (has : pool.HasText index text)
    (small : pool.count < bound) : index < bound :=
  Nat.lt_trans (Has.lt_count has) small

theorem HasNameAndType.lt {name descriptor : String} {bound : Nat}
    (has : pool.HasNameAndType index name descriptor) (small : pool.count < bound) :
    index < bound := by
  obtain ⟨_, _, slot, _⟩ := has
  exact Nat.lt_trans slot.lt_count small

theorem HasNameAndType.nameAndTypeAt {name descriptor : String}
    (has : pool.HasNameAndType index name descriptor) :
    pool.nameAndTypeAt index = .ok (name, descriptor) := by
  obtain ⟨_, _, slot, named, described⟩ := has
  exact bind_eq_ok.mpr ⟨_, get_eq_ok.mpr slot, bind_eq_ok.mpr ⟨_, named.textAt,
    bind_eq_ok.mpr ⟨_, described.textAt, rfl⟩⟩⟩

theorem Has.stringAt {text : Nat} {string : JavaString} (has : pool.Has index (.string text))
    (spelled : pool.Has text (.utf8 string)) : pool.stringAt index = .ok string :=
  bind_eq_ok.mpr ⟨_, get_eq_ok.mpr has, spelled.utf8At⟩

section Member

variable {owner nameAndType : Nat} {member : MemberRef}

theorem HasMember.memberAt (has : pool.HasMember owner nameAndType member) :
    pool.memberAt owner nameAndType = .ok member :=
  bind_eq_ok.mpr ⟨_, has.owner.classNameAt,
    bind_eq_ok.mpr ⟨_, has.nameAndType.nameAndTypeAt, rfl⟩⟩

theorem Has.fieldRefAt (has : pool.Has index (.fieldRef owner nameAndType))
    (found : pool.HasMember owner nameAndType member) : pool.fieldRefAt index = .ok member :=
  bind_eq_ok.mpr ⟨_, get_eq_ok.mpr has, found.memberAt⟩

theorem Has.methodRefAt (has : pool.Has index (.methodRef owner nameAndType))
    (found : pool.HasMember owner nameAndType member) :
    pool.methodRefAt index = .ok (member, false) :=
  bind_eq_ok.mpr ⟨_, get_eq_ok.mpr has, bind_eq_ok.mpr ⟨_, found.memberAt, rfl⟩⟩

theorem Has.methodRefAt_interface (has : pool.Has index (.interfaceMethodRef owner nameAndType))
    (found : pool.HasMember owner nameAndType member) :
    pool.methodRefAt index = .ok (member, true) :=
  bind_eq_ok.mpr ⟨_, get_eq_ok.mpr has, bind_eq_ok.mpr ⟨_, found.memberAt, rfl⟩⟩

theorem Has.interfaceMethodRefAt (has : pool.Has index (.interfaceMethodRef owner nameAndType))
    (found : pool.HasMember owner nameAndType member) :
    pool.interfaceMethodRefAt index = .ok member :=
  bind_eq_ok.mpr ⟨_, get_eq_ok.mpr has, found.memberAt⟩

end Member

theorem HasClass?.lt {name : Option ClassName} {bound : Nat} (has : pool.HasClass? index name)
    (small : pool.count < bound) : index < bound := by
  cases name with
  | none =>
    rw [show index = 0 from has]
    exact Nat.zero_lt_of_lt small
  | some name => exact has.2.lt small

theorem HasClass?.optional {name : Option ClassName} (has : pool.HasClass? index name) :
    optional index pool.classNameAt = .ok name := by
  cases name with
  | none => exact if_pos has
  | some name =>
    obtain ⟨written, has⟩ := has
    rw [ConstantPool.optional, if_neg written]
    exact map_eq_ok.mpr ⟨_, has.classNameAt, rfl⟩

theorem HasConstant.lt {constant : Constant} {bound : Nat} (has : pool.HasConstant index constant)
    (small : pool.count < bound) : index < bound := by
  cases has with
  | integer slot | float slot | long slot | double slot | string slot =>
    exact Nat.lt_trans slot.lt_count small

theorem HasConstant.constantAt {constant : Constant} (has : pool.HasConstant index constant) :
    pool.constantAt index = .ok constant := by
  cases has with
  | integer slot | float slot | long slot | double slot =>
    exact bind_eq_ok.mpr ⟨_, get_eq_ok.mpr slot, rfl⟩
  | string slot spelled =>
    exact bind_eq_ok.mpr ⟨_, get_eq_ok.mpr slot,
      bind_eq_ok.mpr ⟨_, slot.stringAt spelled, rfl⟩⟩

end Bytescript.ConstantPool
