import Bytescript.Binary.Word
import Bytescript.ClassFile.Pool
import Bytescript.Text.Utf8

/-!
# Building constant pools

A builder hands out the index of every entry it takes.  An entry that is equal to one that was
added before gets the same index again, so a name is stored once however often it is used.  An
entry may also be put into the pool without looking for an equal one, and it may be nonsense,
which is how pools are made that a reader has to refuse.
-/

set_option autoImplicit false

namespace Bytescript.Assembly

open Binary

/-- An entry as it is stored: one of the kinds that have a meaning, or a byte that announces an
entry with anything after it. -/
inductive StoredEntry where
  | known (entry : PoolEntry (List UInt8))
  | raw (tag : UInt8) (contents : List UInt8)
  deriving DecidableEq

/-- The operands of an entry as bytes. -/
def operandBytes : PoolEntry (List UInt8) → List UInt8
  | .utf8 text => bigEndianBytes 2 text.length ++ text
  | .integer value => bigEndianBytes 4 value.toUInt32.toNat
  | .float bits => bigEndianBytes 4 bits.toNat
  | .long value => bigEndianBytes 8 value.toUInt64.toNat
  | .double bits => bigEndianBytes 8 bits.toNat
  | .classInfo index | .string index | .methodType index | .moduleInfo index
  | .packageInfo index => bigEndianBytes 2 index
  | .fieldRef first second | .methodRef first second | .interfaceMethodRef first second
  | .nameAndType first second | .dynamic first second | .invokeDynamic first second =>
    bigEndianBytes 2 first ++ bigEndianBytes 2 second
  | .methodHandle kind reference => bigEndianBytes 1 kind ++ bigEndianBytes 2 reference

namespace StoredEntry

/-- An entry as bytes. -/
def bytes : StoredEntry → List UInt8
  | known entry => UInt8.ofNat entry.tag :: operandBytes entry
  | raw tag contents => tag :: contents

/-- How many slots an entry takes. -/
def slots : StoredEntry → Nat
  | known entry => entry.slots
  | raw _ _ => 1

end StoredEntry

/-- A pool that is being built. -/
structure PoolBuilder where
  /-- The entries, in the order of their indices. -/
  entries : Array StoredEntry
  /-- The indices of the entries that may be used again, the latest first. -/
  known : List (StoredEntry × Nat)
  /-- The index that the next entry gets. -/
  next : Nat

/-- A computation that takes pool entries as it goes. -/
abbrev Building (α : Type) : Type := StateM PoolBuilder α

namespace PoolBuilder

/-- A pool without entries.  The first one gets index one. -/
def empty : PoolBuilder := ⟨#[], [], 1⟩

/-- The count that is stored, one more than the highest index. -/
def count (builder : PoolBuilder) : Nat := builder.next

/-- The pool as bytes: the count and the entries. -/
def bytes (builder : PoolBuilder) : List UInt8 :=
  bigEndianBytes 2 builder.next ++ builder.entries.toList.flatMap StoredEntry.bytes

/-- Puts an entry into the pool without looking for an equal one. -/
def push (entry : StoredEntry) : Building Nat := fun builder =>
  (builder.next,
    { builder with
      entries := builder.entries.push entry
      next := builder.next + entry.slots })

/-- Remembers the index of an entry. -/
def remember (entry : StoredEntry) (index : Nat) : Building Unit := fun builder =>
  ((), { builder with known := (entry, index) :: builder.known })

/-- Adds an entry, unless an equal one was added before. -/
def add (entry : StoredEntry) : Building Nat := do
  match (← get).known.lookup entry with
  | some index => return index
  | none =>
    let index ← push entry
    remember entry index
    return index

/-- Adds an entry of a kind that has a meaning. -/
def addKnown (entry : PoolEntry (List UInt8)) : Building Nat := add (.known entry)

/-- Puts anything into the pool. -/
def raw (tag : UInt8) (contents : List UInt8) : Building Nat := push (.raw tag contents)

/-! ## Values -/

/-- Adds a string of the two byte forms. -/
def javaString (string : JavaString) : Building Nat := addKnown (.utf8 (Text.encodeJava string))

/-- Adds a text. -/
def utf8 (text : String) : Building Nat := javaString (.ofString text)

/-- Adds an int. -/
def integer (value : Int32) : Building Nat := addKnown (.integer value)

/-- Adds a float. -/
def float (bits : UInt32) : Building Nat := addKnown (.float bits)

/-- Adds a long. -/
def long (value : Int64) : Building Nat := addKnown (.long value)

/-- Adds a double. -/
def double (bits : UInt64) : Building Nat := addKnown (.double bits)

/-- Adds a string constant. -/
def stringConstant (string : JavaString) : Building Nat := do
  addKnown (.string (← javaString string))

/-- Adds the constant that a field is to have. -/
def constant : Constant → Building Nat
  | .integer value => integer value
  | .float bits => float bits
  | .long value => long value
  | .double bits => double bits
  | .string value => stringConstant value

/-! ## References -/

/-- Adds a class. -/
def className (name : ClassName) : Building Nat := do
  addKnown (.classInfo (← utf8 name.text))

/-- Adds a name with a descriptor. -/
def nameAndType (name descriptor : String) : Building Nat := do
  let name ← utf8 name
  addKnown (.nameAndType name (← utf8 descriptor))

/-- Adds a member of a class. -/
def member (make : Nat → Nat → PoolEntry (List UInt8)) (member : MemberRef) : Building Nat := do
  let owner ← className member.owner
  addKnown (make owner (← nameAndType member.name member.descriptor))

/-- Adds a field. -/
def fieldRef : MemberRef → Building Nat := member .fieldRef

/-- Adds a method of a class. -/
def methodRef : MemberRef → Building Nat := member .methodRef

/-- Adds a method of an interface. -/
def interfaceMethodRef : MemberRef → Building Nat := member .interfaceMethodRef

/-- Adds a handle of a member. -/
def methodHandle (kind reference : Nat) : Building Nat :=
  addKnown (.methodHandle kind reference)

/-- Adds the descriptor of a method as a constant. -/
def methodType (descriptor : String) : Building Nat := do
  addKnown (.methodType (← utf8 descriptor))

/-- Adds a call that is resolved at run time. -/
def invokeDynamic (bootstrap : Nat) (name descriptor : String) : Building Nat := do
  addKnown (.invokeDynamic bootstrap (← nameAndType name descriptor))

end PoolBuilder

end Bytescript.Assembly
