import Bytescript.ClassFile.AnnotationReader
import Bytescript.ClassFile.Attribute
import Bytescript.ClassFile.Basic
import Bytescript.ClassFile.PoolReader

/-!
# Reading class files

A class file is read from the front to the back, and nothing may follow its end.  Classes,
fields, methods and method bodies each end in a table of attributes.  An attribute that is not
known at all is passed over; a known one is cut out of the data first and read on its own, so
positions inside it count from its start, and it must use up exactly the bytes it declares.  A
known attribute at a level where it means nothing is ignored.
-/

set_option autoImplicit false

namespace Bytescript

open Binary

/-! ## Attributes -/

/-- How a level treats the attributes it knows: each updates what was gathered so far. -/
abbrev AttributeTable (State : Type) : Type := AttributeKind → State → Option (Reader State)

variable {State : Type}

/-- Reads one attribute. -/
def readAttribute (pool : ConstantPool) (table : AttributeTable State) (state : State) :
    Reader State := do
  let name ← Reader.ofExcept (pool.textAt (← Reader.u16))
  let length ← Reader.u32
  match AttributeKind.ofName? name with
  | none =>
    Reader.skip length
    return state
  | some kind =>
    let contents ← Reader.take length
    match table kind state with
    | none => return state
    | some reader =>
      let (state, cursor) ←
        Reader.ofExcept (during (.attribute name) (reader.runOn contents))
      Reader.ofExcept (checkConsumed name length cursor)
      return state

/-- Reads the given number of attributes. -/
def readAttributeList (pool : ConstantPool) (table : AttributeTable State) :
    (count : Nat) → State → Reader State
  | 0, state => pure state
  | count + 1, state => do
    readAttributeList pool table count (← readAttribute pool table state)

/-- Reads a counted table of attributes. -/
def readAttributes (pool : ConstantPool) (table : AttributeTable State) (start : State) :
    Reader State := do
  readAttributeList pool table (← Reader.u16) start

/-! ## Method bodies -/

/-- Reads an entry of the exception table of a body with the given length. -/
def ExceptionEntry.read (pool : ConstantPool) (codeLength : Nat) : Reader ExceptionEntry := do
  let start ← Reader.u16
  let stop ← Reader.u16
  let handler ← Reader.u16
  let catchType ← Reader.ofExcept (ConstantPool.optional (← Reader.u16) pool.classNameAt)
  if start ≤ stop ∧ stop ≤ codeLength ∧ handler < codeLength then
    return ⟨start, stop, handler, catchType⟩
  else Reader.malformed (.malformedExceptionRange start stop handler codeLength)

/-- Reads the line of an offset. -/
def LineNumber.read : Reader LineNumber := do
  let start ← Reader.u16
  let line ← Reader.u16
  return ⟨start, line⟩

/-- A body knows its line numbers, which may be spread over several attributes. -/
def Code.attributes : AttributeTable (List LineNumber)
  | .lineNumberTable, lines => some do return lines ++ (← Reader.counted LineNumber.read)
  | _, _ => none

/-- Reads the body of a method. -/
def Code.read (pool : ConstantPool) : Reader Code := do
  let maxStack ← Reader.u16
  let maxLocals ← Reader.u16
  let codeLength ← Reader.u32
  if codeLength = 0 ∨ 0xffff < codeLength then Reader.reject (.codeLength codeLength)
  else
    let bytecode ← Reader.take codeLength
    let exceptionTable ← Reader.counted (ExceptionEntry.read pool codeLength)
    let lineNumbers ← readAttributes pool Code.attributes []
    return ⟨maxStack, maxLocals, bytecode, exceptionTable, lineNumbers⟩

/-! ## Members -/

/-- Reads annotations of either visibility into what a declaration has so far.  A later attribute
replaces an earlier one. -/
def Annotations.update (pool : ConstantPool) (annotations : Annotations) :
    AttributeKind → Option (Reader Annotations)
  | .visibleAnnotations => some do
    return { annotations with visible := ← AnnotationTree.readList pool }
  | .invisibleAnnotations => some do
    return { annotations with invisible := ← AnnotationTree.readList pool }
  | _ => none

/-- What the attributes of a field give. -/
structure FieldDetails where
  constant : Option Constant
  annotations : Annotations

/-- The attributes of a field. -/
def FieldDetails.attributes (pool : ConstantPool) : AttributeTable FieldDetails
  | .constantValue, details => some do
    let constant ← Reader.ofExcept (pool.constantAt (← Reader.u16))
    return { details with constant := some constant }
  | kind, details =>
    (details.annotations.update pool kind).map fun reader => do
      return { details with annotations := ← reader }

/-- Reads a field. -/
def Field.read (pool : ConstantPool) : Reader Field := do
  let access := FieldAccess.ofFlags (← Reader.u16)
  let name ← Reader.ofExcept (pool.textAt (← Reader.u16))
  let descriptor ← Reader.ofExcept (pool.textAt (← Reader.u16))
  let details ←
    (readAttributes pool (FieldDetails.attributes pool) ⟨none, .empty⟩).within
      (.field name descriptor)
  return ⟨access, name, descriptor, details.constant, details.annotations⟩

/-- What the attributes of a method give. -/
structure MethodDetails where
  code : Option Code
  exceptions : List ClassName
  annotations : Annotations

/-- Reads the name of a class. -/
def ClassName.read (pool : ConstantPool) : Reader ClassName := do
  Reader.ofExcept (pool.classNameAt (← Reader.u16))

/-- The attributes of a method. -/
def MethodDetails.attributes (pool : ConstantPool) : AttributeTable MethodDetails
  | .code, details => some do
    if details.code.isSome then Reader.reject .duplicateCode
    else return { details with code := some (← Code.read pool) }
  | .exceptions, details => some do
    return { details with exceptions := ← Reader.counted (ClassName.read pool) }
  | kind, details =>
    (details.annotations.update pool kind).map fun reader => do
      return { details with annotations := ← reader }

/-- Reads a method. -/
def Method.read (pool : ConstantPool) : Reader Method := do
  let access := MethodAccess.ofFlags (← Reader.u16)
  let name ← Reader.ofExcept (pool.textAt (← Reader.u16))
  let descriptor ← Reader.ofExcept (pool.textAt (← Reader.u16))
  let details ←
    (readAttributes pool (MethodDetails.attributes pool) ⟨none, [], .empty⟩).within
      (.method name descriptor)
  return ⟨access, name, descriptor, details.code, details.exceptions, details.annotations⟩

/-! ## Classes -/

/-- What the attributes of a class give. -/
structure ClassDetails where
  sourceFile : Option String
  annotations : Annotations

/-- The attributes of a class. -/
def ClassDetails.attributes (pool : ConstantPool) : AttributeTable ClassDetails
  | .sourceFile, details => some do
    let name ← Reader.ofExcept (pool.textAt (← Reader.u16))
    return { details with sourceFile := some name }
  | kind, details =>
    (details.annotations.update pool kind).map fun reader => do
      return { details with annotations := ← reader }

/-- The number that every class file begins with. -/
def classFileMagic : Nat := 0xcafebabe

/-- The lowest major version that is understood. -/
def lowestMajorVersion : Nat := 45

/-- The highest major version that is understood. -/
def highestMajorVersion : Nat := 69

namespace ClassFile

/-- Reads the magic number and the version, and refuses other formats. -/
def readVersion : Reader Version := do
  let magic ← Reader.u32
  if magic ≠ classFileMagic then Reader.malformed (.badMagic magic)
  else
    let minor ← Reader.u16
    let major ← Reader.u16
    if lowestMajorVersion ≤ major ∧ major ≤ highestMajorVersion then return ⟨major, minor⟩
    else Reader.malformed (.unsupportedVersion major minor)

/-- Reads a class, which may be followed by anything. -/
def readContents : Reader ClassFile := do
  let version ← readVersion
  let pool ← ConstantPool.read
  let access := ClassAccess.ofFlags (← Reader.u16)
  let name ← do
    let index ← Reader.u16
    (Reader.ofExcept (pool.classNameAt index)).within .thisClass
  let superClass ← do
    let index ← Reader.u16
    (Reader.ofExcept (ConstantPool.optional index pool.classNameAt)).within .superClass
  let interfaces ← Reader.counted (ClassName.read pool)
  let fields ← (Reader.counted (Field.read pool)).within (.fieldsOf name)
  let methods ← (Reader.counted (Method.read pool)).within (.methodsOf name)
  let details ←
    (readAttributes pool (ClassDetails.attributes pool) ⟨none, .empty⟩).within
      (.attributesOf name)
  return { version, pool, access, name, superClass, interfaces, fields, methods,
           sourceFile := details.sourceFile, annotations := details.annotations }

/-- Reads a class file. -/
def read : Reader ClassFile := do
  let file ← readContents
  if ← Reader.atEnd then return file
  else Reader.reject (.trailingBytes file.name)

/-- The class that bytes hold. -/
def parse (bytes : List UInt8) : Except Failure ClassFile :=
  match read.runOn bytes with
  | .ok (file, _) => .ok file
  | .error failure => .error failure

end ClassFile

end Bytescript
