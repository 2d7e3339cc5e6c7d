import Bytescript.Assembly.Stored
import Bytescript.ClassFile.Attribute

/-!
# Describing class files

A sketch says what a class file is to hold by names and values.  Storing a sketch puts all of
these into a pool, in a fixed order, and leaves their indices: the class and its super class, the
interfaces, then every field and every method, each after its attributes, and at last the
attributes of the class itself.
-/

set_option autoImplicit false

namespace Bytescript.Assembly

/-! ## Annotations -/

mutual

/-- A sketch of an annotation: its type, and its elements by name. -/
inductive TreeSketch where
  | mk (type : String) (elements : List (String × ValueSketch))

/-- A sketch of the value of an element. -/
inductive ValueSketch where
  | constant (tag : Char) (value : Constant)
  | enumConstant (type name : String)
  | classLiteral (descriptor : String)
  | nested (tree : TreeSketch)
  | array (values : List ValueSketch)
  /-- Any byte to announce the value, and any contents. -/
  | raw (tag : UInt8) (contents : List UInt8)

end

/-- Adds the constant of an element.  A string is a text entry here, not a string entry. -/
def elementConstant : Constant → Building Nat
  | .string value => PoolBuilder.javaString value
  | other => PoolBuilder.constant other

mutual

/-- Stores an annotation: the type, then each element with its name before its value. -/
def TreeSketch.store : TreeSketch → Building StoredTree
  | .mk type elements => do
    let type ← PoolBuilder.utf8 type
    return .mk type (← TreeSketch.storeElements elements)

/-- Stores elements of an annotation. -/
def TreeSketch.storeElements :
    List (String × ValueSketch) → Building (List (Nat × StoredValue))
  | [] => pure []
  | (name, value) :: rest => do
    let name ← PoolBuilder.utf8 name
    let value ← value.store
    return (name, value) :: (← TreeSketch.storeElements rest)

/-- Stores a value. -/
def ValueSketch.store : ValueSketch → Building StoredValue
  | .constant tag value => do return .constant tag (← elementConstant value)
  | .enumConstant type name => do
    let type ← PoolBuilder.utf8 type
    return .enumConstant type (← PoolBuilder.utf8 name)
  | .classLiteral descriptor => do return .constant 'c' (← PoolBuilder.utf8 descriptor)
  | .nested tree => do return .nested (← tree.store)
  | .array values => do return .array (← ValueSketch.storeAll values)
  | .raw tag contents => pure (.raw tag contents)

/-- Stores several values. -/
def ValueSketch.storeAll : List ValueSketch → Building (List StoredValue)
  | [] => pure []
  | value :: rest => do
    let value ← value.store
    return value :: (← ValueSketch.storeAll rest)

end

/-! ## Attributes -/

/-- A sketch of an attribute. -/
inductive AttributeSketch where
  | constantValue (value : Constant)
  | code (maxStack maxLocals : Nat) (bytecode : List UInt8)
      (exceptionTable : List ExceptionEntry) (attributes : List AttributeSketch)
  | exceptions (classes : List ClassName)
  | sourceFile (name : String)
  | lineNumberTable (lines : List LineNumber)
  | annotations ( isVisible : Bool) (trees : List TreeSketch)
  | other (name : String) (contents : List UInt8)

/-- Adds the name of a known attribute. -/
def attributeName (kind : AttributeKind) : Building Nat := PoolBuilder.utf8 kind.name

/-- Stores an entry of an exception table. -/
def storeException (entry : ExceptionEntry) : Building StoredException := do
  let catchType ← match entry.catchType with
    | some name => PoolBuilder.className name
    | none => pure 0
  return ⟨entry.start, entry.stop, entry.handler, catchType⟩

/-- The name of annotations of either visibility. -/
def annotationsKind ( isVisible : Bool) : AttributeKind :=
  if isVisible then .visibleAnnotations else .invisibleAnnotations

mutual

/-- Stores an attribute.  The name of a body or of annotations comes after what is inside. -/
def AttributeSketch.store : AttributeSketch → Building StoredAttribute
  | .constantValue value => do
    let name ← attributeName .constantValue
    return .constantValue name (← PoolBuilder.constant value)
  | .code maxStack maxLocals bytecode exceptionTable attributes => do
    let table ← exceptionTable.mapM storeException
    let inner ← AttributeSketch.storeAll attributes
    return .code (← attributeName .code) maxStack maxLocals bytecode table inner
  | .exceptions classes => do
    let name ← attributeName .exceptions
    return .exceptions name (← classes.mapM PoolBuilder.className)
  | .sourceFile file => do
    let name ← attributeName .sourceFile
    return .sourceFile name (← PoolBuilder.utf8 file)
  | .lineNumberTable lines => do
    return .lineNumberTable (← attributeName .lineNumberTable) lines
  | .annotations isVisible trees => do
    let trees ← trees.mapM TreeSketch.store
    return .annotations (← attributeName (annotationsKind isVisible)) trees
  | .other name contents => do return .other (← PoolBuilder.utf8 name) contents

/-- Stores several attributes. -/
def AttributeSketch.storeAll : List AttributeSketch → Building (List StoredAttribute)
  | [] => pure []
  | first :: rest => do
    let stored ← first.store
    return stored :: (← AttributeSketch.storeAll rest)

end

/-! ## Members and classes -/

/-- A sketch of a field or method. -/
structure MemberSketch where
  flags : Nat
  name : String
  descriptor : String
  attributes : List AttributeSketch

/-- Stores a field or method. -/
def MemberSketch.store (sketch : MemberSketch) : Building StoredMember := do
  let attributes ← AttributeSketch.storeAll sketch.attributes
  let name ← PoolBuilder.utf8 sketch.name
  return ⟨sketch.flags, name, ← PoolBuilder.utf8 sketch.descriptor, attributes⟩

/-- A sketch of a class. -/
structure ClassSketch where
  version : Version
  flags : Nat
  name : ClassName
  superClass : Option ClassName
  interfaces : List ClassName
  fields : List MemberSketch
  methods : List MemberSketch
  attributes : List AttributeSketch

namespace ClassSketch

/-- A public class of version 52 with nothing in it. -/
def empty (name : ClassName) (superClass : Option ClassName) : ClassSketch :=
  ⟨⟨52, 0⟩, 0x21, name, superClass, [], [], [], []⟩

/-- Puts everything into the pool.  The pool of the result is the one at the end. -/
def store (sketch : ClassSketch) : Building StoredClass := do
  let thisClass ← PoolBuilder.className sketch.name
  let superClass ← match sketch.superClass with
    | some name => PoolBuilder.className name
    | none => pure 0
  let interfaces ← sketch.interfaces.mapM PoolBuilder.className
  let fields ← sketch.fields.mapM MemberSketch.store
  let methods ← sketch.methods.mapM MemberSketch.store
  let attributes ← AttributeSketch.storeAll sketch.attributes
  return { version := sketch.version, pool := ← get, flags := sketch.flags, thisClass,
           superClass, interfaces, fields, methods, attributes }

/-- The class file of a sketch. -/
def bytes (sketch : ClassSketch) : List UInt8 := (sketch.store.run .empty).1.bytes

end ClassSketch

end Bytescript.Assembly
