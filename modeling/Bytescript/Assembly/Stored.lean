import Bytescript.Assembly.PoolBuilder
import Bytescript.ClassFile.Basic

/-!
# Class files as they are stored

The parts of a class file with the pool indices in the places of names and values.  Everything is
written as it is given; nothing checks that an index makes sense, so a file that a reader has to
refuse can be written too.
-/

set_option autoImplicit false

namespace Bytescript.Assembly

open Binary

/-- A word of two bytes. -/
def word16 (value : Nat) : List UInt8 := bigEndianBytes 2 value

/-- A count of two bytes, and the bytes of as many items. -/
def counted (items : List (List UInt8)) : List UInt8 := word16 items.length ++ items.flatten

/-! ## Annotations -/

mutual

/-- A stored annotation: its type, and its elements by name. -/
inductive StoredTree where
  | mk (type : Nat) (elements : List (Nat × StoredValue))

/-- The stored value of an element of an annotation. -/
inductive StoredValue where
  | constant (tag : Char) (index : Nat)
  | enumConstant (type name : Nat)
  | nested (tree : StoredTree)
  | array (values : List StoredValue)
  | raw (tag : UInt8) (contents : List UInt8)

end

/-- The byte that announces a value. -/
def tagByte (tag : Char) : UInt8 := UInt8.ofNat tag.toNat

mutual

/-- An annotation as bytes. -/
def StoredTree.bytes : StoredTree → List UInt8
  | .mk type elements => word16 type ++ counted (StoredTree.elementBytes elements)

/-- The elements of an annotation as bytes. -/
def StoredTree.elementBytes : List (Nat × StoredValue) → List (List UInt8)
  | [] => []
  | (name, value) :: rest => (word16 name ++ value.bytes) :: StoredTree.elementBytes rest

/-- A value as bytes. -/
def StoredValue.bytes : StoredValue → List UInt8
  | .constant tag index => tagByte tag :: word16 index
  | .enumConstant type name => tagByte 'e' :: word16 type ++ word16 name
  | .nested tree => tagByte '@' :: tree.bytes
  | .array values => tagByte '[' :: counted (StoredValue.allBytes values)
  | .raw tag contents => tag :: contents

/-- Several values as bytes. -/
def StoredValue.allBytes : List StoredValue → List (List UInt8)
  | [] => []
  | value :: rest => value.bytes :: StoredValue.allBytes rest

end

/-- The contents of an attribute that holds annotations. -/
def treeListBytes (trees : List StoredTree) : List UInt8 := counted (trees.map StoredTree.bytes)

/-! ## Attributes -/

/-- A stored entry of an exception table.  The class is zero if everything is caught. -/
structure StoredException where
  start : Nat
  stop : Nat
  handler : Nat
  catchType : Nat
  deriving DecidableEq

/-- An entry of an exception table as bytes. -/
def StoredException.bytes (entry : StoredException) : List UInt8 :=
  word16 entry.start ++ word16 entry.stop ++ word16 entry.handler ++ word16 entry.catchType

/-- The line of an offset as bytes. -/
def lineNumberBytes (line : LineNumber) : List UInt8 := word16 line.start ++ word16 line.line

/-- A stored attribute, with the index of its name. -/
inductive StoredAttribute where
  | constantValue (name value : Nat)
  | code (name maxStack maxLocals : Nat) (bytecode : List UInt8)
      (exceptionTable : List StoredException) (attributes : List StoredAttribute)
  | exceptions (name : Nat) (classes : List Nat)
  | sourceFile (name text : Nat)
  | lineNumberTable (name : Nat) (lines : List LineNumber)
  | annotations (name : Nat) (trees : List StoredTree)
  | other (name : Nat) (contents : List UInt8)

namespace StoredAttribute

/-- The index of the name of an attribute. -/
def name : StoredAttribute → Nat
  | constantValue name _ | code name _ _ _ _ _ | exceptions name _ | sourceFile name _
  | lineNumberTable name _ | annotations name _ | other name _ => name

/-- An attribute with given contents as bytes. -/
def framed (name : Nat) (contents : List UInt8) : List UInt8 :=
  word16 name ++ bigEndianBytes 4 contents.length ++ contents

mutual

/-- The contents of an attribute. -/
def contents : StoredAttribute → List UInt8
  | constantValue _ value => word16 value
  | code _ maxStack maxLocals bytecode exceptionTable attributes =>
    word16 maxStack ++ word16 maxLocals ++ bigEndianBytes 4 bytecode.length ++ bytecode
      ++ counted (exceptionTable.map StoredException.bytes) ++ counted (allBytes attributes)
  | exceptions _ classes => counted (classes.map word16)
  | sourceFile _ text => word16 text
  | lineNumberTable _ lines => counted (lines.map lineNumberBytes)
  | annotations _ trees => treeListBytes trees
  | other _ contents => contents

/-- Several attributes as bytes. -/
def allBytes : List StoredAttribute → List (List UInt8)
  | [] => []
  | first :: rest => framed first.name first.contents :: allBytes rest

end

/-- A table of attributes as bytes. -/
def tableBytes (attributes : List StoredAttribute) : List UInt8 := counted (allBytes attributes)

end StoredAttribute

/-! ## Members and classes -/

/-- A stored field or method. -/
structure StoredMember where
  flags : Nat
  name : Nat
  descriptor : Nat
  attributes : List StoredAttribute

/-- A field or method as bytes. -/
def StoredMember.bytes (member : StoredMember) : List UInt8 :=
  word16 member.flags ++ word16 member.name ++ word16 member.descriptor
    ++ StoredAttribute.tableBytes member.attributes

/-- A stored class with its pool. -/
structure StoredClass where
  version : Version
  pool : PoolBuilder
  flags : Nat
  thisClass : Nat
  /-- The index of the super class, or zero. -/
  superClass : Nat
  interfaces : List Nat
  fields : List StoredMember
  methods : List StoredMember
  attributes : List StoredAttribute

/-- A class file. -/
def StoredClass.bytes (stored : StoredClass) : List UInt8 :=
  bigEndianBytes 4 0xcafebabe ++ word16 stored.version.minor ++ word16 stored.version.major
    ++ stored.pool.bytes ++ word16 stored.flags ++ word16 stored.thisClass
    ++ word16 stored.superClass ++ counted (stored.interfaces.map word16)
    ++ counted (stored.fields.map StoredMember.bytes)
    ++ counted (stored.methods.map StoredMember.bytes)
    ++ StoredAttribute.tableBytes stored.attributes

end Bytescript.Assembly
