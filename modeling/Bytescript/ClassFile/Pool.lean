import Bytescript.Failure

/-!
# The constant pool

Everything a class file names is an entry of its constant pool, and entries refer to each other
by index.  Indices are kept as they are stored; nothing is resolved until an entry is asked for.
A slot is empty if it cannot be named: slot zero, and the slot after each entry that takes two.

The accessors follow the references of an entry as far as the answer needs.  Each step either
finds an entry of the expected kind or says which slot was wrong, so no chain of references can
lead astray, not even a circular one.
-/

set_option autoImplicit false

namespace Bytescript

/-- An entry of a constant pool, over the kind of text that it stores. -/
inductive PoolEntry (Text : Type) where
  | utf8 (text : Text)
  | integer (value : Int32)
  | float (bits : UInt32)
  | long (value : Int64)
  | double (bits : UInt64)
  | classInfo (name : Nat)
  | string (text : Nat)
  | fieldRef (owner nameAndType : Nat)
  | methodRef (owner nameAndType : Nat)
  | interfaceMethodRef (owner nameAndType : Nat)
  | nameAndType (name descriptor : Nat)
  | methodHandle (kind reference : Nat)
  | methodType (descriptor : Nat)
  | dynamic (bootstrap nameAndType : Nat)
  | invokeDynamic (bootstrap nameAndType : Nat)
  | moduleInfo (name : Nat)
  | packageInfo (name : Nat)
  deriving DecidableEq

namespace PoolEntry

variable {Text : Type}

/-- The name of the kind of an entry. -/
def kind : PoolEntry Text → String
  | utf8 _ => "Utf8"
  | integer _ => "Integer"
  | float _ => "Float"
  | long _ => "Long"
  | double _ => "Double"
  | classInfo _ => "Class"
  | string _ => "String"
  | fieldRef _ _ => "Fieldref"
  | methodRef _ _ => "Methodref"
  | interfaceMethodRef _ _ => "InterfaceMethodref"
  | nameAndType _ _ => "NameAndType"
  | methodHandle _ _ => "MethodHandle"
  | methodType _ => "MethodType"
  | dynamic _ _ => "Dynamic"
  | invokeDynamic _ _ => "InvokeDynamic"
  | moduleInfo _ => "Module"
  | packageInfo _ => "Package"

/-- The byte that announces an entry of this kind. -/
def tag : PoolEntry Text → Nat
  | utf8 _ => 1
  | integer _ => 3
  | float _ => 4
  | long _ => 5
  | double _ => 6
  | classInfo _ => 7
  | string _ => 8
  | fieldRef _ _ => 9
  | methodRef _ _ => 10
  | interfaceMethodRef _ _ => 11
  | nameAndType _ _ => 12
  | methodHandle _ _ => 15
  | methodType _ => 16
  | dynamic _ _ => 17
  | invokeDynamic _ _ => 18
  | moduleInfo _ => 19
  | packageInfo _ => 20

/-- The entries that take two slots. -/
def isWide : PoolEntry Text → Bool
  | long _ => true
  | double _ => true
  | _ => false

/-- How many slots an entry takes. -/
def slots (entry : PoolEntry Text) : Nat := if entry.isWide then 2 else 1

end PoolEntry

/-- A constant pool by its slots. -/
structure ConstantPool where
  slots : Array (Option (PoolEntry JavaString))

namespace ConstantPool

/-- A pool without any slots. -/
def empty : ConstantPool := ⟨#[]⟩

/-- The number of slots, one more than the highest index. -/
def count (pool : ConstantPool) : Nat := pool.slots.size

/-- The entry at an index. -/
def get (pool : ConstantPool) (index : Nat) : Except Failure (PoolEntry JavaString) :=
  match pool.slots[index]? with
  | some (some entry) => .ok entry
  | _ => failDecode (.poolIndexOutOfRange index pool.count)

/-- Fails because an entry is of another kind than a place needs. -/
def mismatch {α : Type} (index : Nat) (expected : String) (found : PoolEntry JavaString) :
    Except Failure α :=
  failDecode (.poolTagMismatch index expected found.kind)

/-- The string of a text entry. -/
def utf8At (pool : ConstantPool) (index : Nat) : Except Failure JavaString := do
  match ← pool.get index with
  | .utf8 text => return text
  | other => mismatch index "Utf8" other

/-- The string of a text entry, which must not have lone surrogates. -/
def textAt (pool : ConstantPool) (index : Nat) : Except Failure String := do
  match (← pool.utf8At index).toString? with
  | some text => return text
  | none => failDecode (.malformedUtf8 index)

/-- The name of a class entry. -/
def classNameAt (pool : ConstantPool) (index : Nat) : Except Failure ClassName := do
  match ← pool.get index with
  | .classInfo name => return ⟨← pool.textAt name⟩
  | other => mismatch index "Class" other

/-- The name and the descriptor of a member. -/
def nameAndTypeAt (pool : ConstantPool) (index : Nat) : Except Failure (String × String) := do
  match ← pool.get index with
  | .nameAndType name descriptor =>
    let name ← pool.textAt name
    let descriptor ← pool.textAt descriptor
    return (name, descriptor)
  | other => mismatch index "NameAndType" other

/-- The value of an integer entry. -/
def integerAt (pool : ConstantPool) (index : Nat) : Except Failure Int32 := do
  match ← pool.get index with
  | .integer value => return value
  | other => mismatch index "Integer" other

/-- The bits of a float entry. -/
def floatAt (pool : ConstantPool) (index : Nat) : Except Failure UInt32 := do
  match ← pool.get index with
  | .float bits => return bits
  | other => mismatch index "Float" other

/-- The value of a long entry. -/
def longAt (pool : ConstantPool) (index : Nat) : Except Failure Int64 := do
  match ← pool.get index with
  | .long value => return value
  | other => mismatch index "Long" other

/-- The bits of a double entry. -/
def doubleAt (pool : ConstantPool) (index : Nat) : Except Failure UInt64 := do
  match ← pool.get index with
  | .double bits => return bits
  | other => mismatch index "Double" other

/-- The string that a string entry refers to. -/
def stringAt (pool : ConstantPool) (index : Nat) : Except Failure JavaString := do
  match ← pool.get index with
  | .string text => pool.utf8At text
  | other => mismatch index "String" other

/-- The member named by a class entry and a name with a type. -/
def memberAt (pool : ConstantPool) (owner nameAndType : Nat) : Except Failure MemberRef := do
  let owner ← pool.classNameAt owner
  let (name, descriptor) ← pool.nameAndTypeAt nameAndType
  return ⟨owner, name, descriptor⟩

/-- The field that a field entry refers to. -/
def fieldRefAt (pool : ConstantPool) (index : Nat) : Except Failure MemberRef := do
  match ← pool.get index with
  | .fieldRef owner nameAndType => pool.memberAt owner nameAndType
  | other => mismatch index "Fieldref" other

/-- The method that an entry for either kind of method refers to, and whether the entry is one
for interface methods. -/
def methodRefAt (pool : ConstantPool) (index : Nat) : Except Failure (MemberRef × Bool) := do
  match ← pool.get index with
  | .methodRef owner nameAndType => return (← pool.memberAt owner nameAndType, false)
  | .interfaceMethodRef owner nameAndType => return (← pool.memberAt owner nameAndType, true)
  | other => mismatch index "Methodref" other

/-- The method that an entry for interface methods refers to. -/
def interfaceMethodRefAt (pool : ConstantPool) (index : Nat) : Except Failure MemberRef := do
  match ← pool.get index with
  | .interfaceMethodRef owner nameAndType => pool.memberAt owner nameAndType
  | other => mismatch index "InterfaceMethodref" other

/-- What an instruction loads from an entry. -/
def loadableAt (pool : ConstantPool) (index : Nat) : Except Failure Loadable := do
  match ← pool.get index with
  | .integer value => return .constant (.integer value)
  | .float bits => return .constant (.float bits)
  | .long value => return .constant (.long value)
  | .double bits => return .constant (.double bits)
  | .string _ => return .constant (.string (← pool.stringAt index))
  | .classInfo _ => return .classLiteral (← pool.classNameAt index)
  | .methodHandle _ _ => return .methodHandle index
  | .methodType _ => return .methodType index
  | .dynamic _ _ => return .dynamic index
  | other => mismatch index "loadable constant" other

/-- The constant that an entry gives a field. -/
def constantAt (pool : ConstantPool) (index : Nat) : Except Failure Constant := do
  match ← pool.get index with
  | .integer value => return .integer value
  | .float bits => return .float bits
  | .long value => return .long value
  | .double bits => return .double bits
  | .string _ => return .string (← pool.stringAt index)
  | other => mismatch index "constant value" other

/-- Follows an index that may be zero, for nothing. -/
def optional {α : Type} (index : Nat) (follow : Nat → Except Failure α) :
    Except Failure (Option α) :=
  if index = 0 then .ok none else (follow index).map some

end ConstantPool

end Bytescript
