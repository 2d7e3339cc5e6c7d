import Bytescript.ClassFile.Instruction
import Bytescript.ClassFile.Pool

/-!
# Class files

The tree that a class file decodes to.  The bytecode of a method is kept as it is, next to the
pool that its operands refer to; it is decoded when it is needed.
-/

set_option autoImplicit false

namespace Bytescript

/-- The version of the format that a class file states. -/
structure Version where
  major : Nat
  minor : Nat
  deriving DecidableEq

/-- Tests one bit of a word of flags. -/
def hasFlag (flags bit : Nat) : Bool := flags.testBit bit

/-- The access flags of a class that matter here. -/
structure ClassAccess where
  isPublic : Bool
  isFinal : Bool
  isInterface : Bool
  isAbstract : Bool
  deriving DecidableEq

/-- The access flags of a field that matter here. -/
structure FieldAccess where
  isPublic : Bool
  isPrivate : Bool
  isStatic : Bool
  isFinal : Bool
  deriving DecidableEq

/-- The access flags of a method that matter here. -/
structure MethodAccess where
  isPublic : Bool
  isPrivate : Bool
  isStatic : Bool
  isFinal : Bool
  isSynchronized : Bool
  isNative : Bool
  isAbstract : Bool
  deriving DecidableEq

/-- The flags of a class in a word. -/
def ClassAccess.ofFlags (flags : Nat) : ClassAccess :=
  ⟨hasFlag flags 0, hasFlag flags 4, hasFlag flags 9, hasFlag flags 10⟩

/-- The flags of a field in a word. -/
def FieldAccess.ofFlags (flags : Nat) : FieldAccess :=
  ⟨hasFlag flags 0, hasFlag flags 1, hasFlag flags 3, hasFlag flags 4⟩

/-- The flags of a method in a word. -/
def MethodAccess.ofFlags (flags : Nat) : MethodAccess :=
  ⟨hasFlag flags 0, hasFlag flags 1, hasFlag flags 3, hasFlag flags 4, hasFlag flags 5,
    hasFlag flags 8, hasFlag flags 10⟩

/-- The annotations of a declaration, split by whether programs can see them at run time. -/
structure Annotations where
  visible : List AnnotationTree
  invisible : List AnnotationTree

/-- No annotations. -/
def Annotations.empty : Annotations := ⟨[], []⟩

/-- All annotations, the visible ones first. -/
def Annotations.all (annotations : Annotations) : List AnnotationTree :=
  annotations.visible ++ annotations.invisible

/-- A field of a class. -/
structure Field where
  access : FieldAccess
  name : String
  descriptor : String
  constant : Option Constant
  annotations : Annotations

/-- An entry of an exception table: the offsets from `start` up to but not including `stop` are
covered.  It catches everything if it names no class. -/
structure ExceptionEntry where
  start : Nat
  stop : Nat
  handler : Nat
  catchType : Option ClassName
  deriving DecidableEq

/-- Whether an entry covers an offset. -/
def ExceptionEntry.covers (entry : ExceptionEntry) (offset : Nat) : Bool :=
  entry.start ≤ offset && offset < entry.stop

/-- The source line of the instructions from an offset on. -/
structure LineNumber where
  start : Nat
  line : Nat
  deriving DecidableEq

/-- The body of a method. -/
structure Code where
  maxStack : Nat
  maxLocals : Nat
  bytecode : List UInt8
  exceptionTable : List ExceptionEntry
  lineNumbers : List LineNumber
  deriving DecidableEq

/-- A method of a class.  Abstract and native methods have no code. -/
structure Method where
  access : MethodAccess
  name : String
  descriptor : String
  code : Option Code
  exceptions : List ClassName
  annotations : Annotations

/-- The first annotation of a method that has a type. -/
def Method.annotationOfType? (method : Method) (type : String) : Option AnnotationTree :=
  method.annotations.all.find? fun tree => tree.type = type

/-- A decoded class file. -/
structure ClassFile where
  version : Version
  pool : ConstantPool
  access : ClassAccess
  name : ClassName
  superClass : Option ClassName
  interfaces : List ClassName
  fields : List Field
  methods : List Method
  sourceFile : Option String
  annotations : Annotations

namespace ClassFile

/-- The first field with a name. -/
def field? (file : ClassFile) (name : String) : Option Field :=
  file.fields.find? fun field => field.name = name

/-- The first method with a name and a descriptor. -/
def method? (file : ClassFile) (name descriptor : String) : Option Method :=
  file.methods.find? fun method => method.name = name && method.descriptor = descriptor

end ClassFile

end Bytescript
