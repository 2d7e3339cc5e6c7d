import Bytescript.Binary.Reader
import Bytescript.ClassFile.Pool

/-!
# Reading annotations

Annotations nest through arrays and through values that are annotations themselves.  Reading
counts the levels down from a fixed limit, so that a file cannot make it descend without end:
every value takes one level, and an annotation inside a value takes one more.
-/

set_option autoImplicit false

namespace Bytescript

open Binary

/-- How deep annotations and values may be nested in each other. -/
def annotationDepthLimit : Nat := 64

mutual

/-- Reads an annotation, with the given number of levels left. -/
def AnnotationTree.read (pool : ConstantPool) : (levels : Nat) → Reader AnnotationTree
  | 0 => Reader.malformed (.annotationTooDeep annotationDepthLimit)
  | levels + 1 => do
    let type ← Reader.ofExcept (pool.textAt (← Reader.u16))
    let elements ← Reader.counted do
      let name ← Reader.ofExcept (pool.textAt (← Reader.u16))
      let value ← (AnnotationValue.read pool levels).within (.annotationElement name type)
      return (name, value)
    return .mk type
      (elements.foldl (fun known (name, value) => AnnotationTree.insertElement name value known) [])

/-- Reads a value, with the given number of levels left. -/
def AnnotationValue.read (pool : ConstantPool) : (levels : Nat) → Reader AnnotationValue
  | 0 => Reader.malformed (.annotationTooDeep annotationDepthLimit)
  | levels + 1 => do
    let tag ← Reader.u8
    let char := Char.ofNat tag
    match char with
    | 'B' | 'C' | 'I' | 'S' | 'Z' =>
      let value ← Reader.ofExcept (pool.integerAt (← Reader.u16))
      return .primitive char (.integer value)
    | 'J' =>
      let value ← Reader.ofExcept (pool.longAt (← Reader.u16))
      return .primitive char (.long value)
    | 'F' =>
      let bits ← Reader.ofExcept (pool.floatAt (← Reader.u16))
      return .primitive char (.float bits)
    | 'D' =>
      let bits ← Reader.ofExcept (pool.doubleAt (← Reader.u16))
      return .primitive char (.double bits)
    | 's' =>
      let value ← Reader.ofExcept (pool.utf8At (← Reader.u16))
      return .primitive char (.string value)
    | 'e' =>
      let type ← Reader.ofExcept (pool.textAt (← Reader.u16))
      let name ← Reader.ofExcept (pool.textAt (← Reader.u16))
      return .enumConstant type name
    | 'c' => return .classLiteral (← Reader.ofExcept (pool.textAt (← Reader.u16)))
    | '@' => return .nested (← AnnotationTree.read pool levels)
    | '[' => return .array (← Reader.counted (AnnotationValue.read pool levels))
    | _ => Reader.malformed (.unknownAnnotationTag tag)

end

/-- Reads a counted list of annotations. -/
def AnnotationTree.readList (pool : ConstantPool) : Reader (List AnnotationTree) :=
  Reader.counted (AnnotationTree.read pool annotationDepthLimit)

/-- Fails if an attribute did not use up as many bytes as it declared. -/
def checkConsumed (name : String) (declared : Nat) (cursor : Cursor) : Except Failure Unit :=
  if cursor.position = declared then .ok ()
  else failDecode (.attributeLength name declared cursor.position)

/-- An element of an annotation, with the type of the annotation. -/
structure AnnotationElement where
  type : String
  name : String
  value : AnnotationValue

/-- The elements of a list of annotations, in order. -/
def AnnotationTree.flatten (annotations : List AnnotationTree) : List AnnotationElement :=
  annotations.flatMap fun tree =>
    tree.elements.map fun (name, value) => ⟨tree.type, name, value⟩

/-- Decodes the contents of an attribute that holds annotations, and lists all elements. -/
def AnnotationTree.decodePayload (payload : List UInt8) (pool : ConstantPool) :
    Except Failure (List AnnotationElement) := do
  let (annotations, cursor) ← (AnnotationTree.readList pool).runOn payload
  checkConsumed "annotations" payload.length cursor
  return AnnotationTree.flatten annotations

end Bytescript
