import Bytescript.Failure

/-!
# Descriptors

A field has a type, written as a letter for a primitive type, as a class name between `L` and
`;`, or as a bracket before the type of the elements.  A method has a list of parameter types in
parentheses and the type of its result, or `V` if there is none.  The reader accepts exactly what
`FieldType.text` and `MethodType.text` write, up to 255 brackets in a row.
-/

set_option autoImplicit false

namespace Bytescript

/-- The primitive types. -/
inductive Primitive where
  | byte | char | double | float | int | long | short | boolean
  deriving DecidableEq

/-- The letter of a primitive type. -/
def Primitive.letter : Primitive → Char
  | byte => 'B'
  | char => 'C'
  | double => 'D'
  | float => 'F'
  | int => 'I'
  | long => 'J'
  | short => 'S'
  | boolean => 'Z'

/-- The primitive type of a letter. -/
def Primitive.ofLetter? : Char → Option Primitive
  | 'B' => some byte
  | 'C' => some char
  | 'D' => some double
  | 'F' => some float
  | 'I' => some int
  | 'J' => some long
  | 'S' => some short
  | 'Z' => some boolean
  | _ => none

/-- The type of a field, a parameter or a result. -/
inductive FieldType where
  | primitive (type : Primitive)
  | object (name : ClassName)
  | array (element : FieldType)
  deriving DecidableEq

/-- The types of the parameters of a method, and of its result. -/
structure MethodType where
  parameters : List FieldType
  result : Option FieldType
  deriving DecidableEq

namespace FieldType

/-- The characters of a descriptor. -/
def chars : FieldType → List Char
  | primitive type => [type.letter]
  | object name => 'L' :: name.text.toList ++ [';']
  | array element => '[' :: element.chars

/-- The descriptor of a type. -/
def text (type : FieldType) : String := String.ofList type.chars

/-- The types whose values take two slots. -/
def isWide : FieldType → Bool
  | primitive .long => true
  | primitive .double => true
  | _ => false

/-- How many slots a value of the type takes. -/
def slots (type : FieldType) : Nat := if type.isWide then 2 else 1

/-- Wraps a type in array dimensions. -/
def arrayOf (element : FieldType) : (dimensions : Nat) → FieldType
  | 0 => element
  | dimensions + 1 => array (arrayOf element dimensions)

/-- Reads a type without its leading brackets from the front of a text. -/
def readElement : List Char → Except DescriptorError (FieldType × List Char)
  | [] => .error .abruptEnd
  | 'L' :: rest =>
    match rest.dropWhile (· ≠ ';') with
    | [] => .error .abruptEnd
    | _ :: after =>
      let name := rest.takeWhile (· ≠ ';')
      if name.isEmpty then .error .emptyClassName
      else .ok (.object ⟨String.ofList name⟩, after)
  | char :: rest =>
    match Primitive.ofLetter? char with
    | some type => .ok (.primitive type, rest)
    | none => .error (.unexpectedChar char)

/-- Reads one type from the front of a text. -/
def read (chars : List Char) : Except DescriptorError (FieldType × List Char) :=
  let dimensions := (chars.takeWhile (· = '[')).length
  if 255 < dimensions then .error (.tooManyDimensions dimensions)
  else
    match readElement (chars.drop dimensions) with
    | .ok (element, rest) => .ok (element.arrayOf dimensions, rest)
    | .error error => .error error

/-- The type that a whole text describes. -/
def parse (descriptor : String) : Except Failure FieldType :=
  match read descriptor.toList with
  | .error error =>
    .error ((Failure.of (.descriptor error)).within (.fieldDescriptor descriptor))
  | .ok (type, []) => .ok type
  | .ok (_, _ :: _) => .error (.of (.descriptor (.trailingAfterField descriptor)))

/-- The type that a class name stands for, which may be the descriptor of an array. -/
def ofClassName (name : ClassName) : Except Failure FieldType :=
  if name.isArray then parse name.text else .ok (.object name)

end FieldType

namespace MethodType

/-- The characters of the result type. -/
def resultChars : Option FieldType → List Char
  | some type => type.chars
  | none => ['V']

/-- The descriptor of a method. -/
def text (type : MethodType) : String :=
  String.ofList ('(' :: type.parameters.flatMap FieldType.chars ++ ')' :: resultChars type.result)

/-- Reads parameter types up to the closing parenthesis.  Every type takes at least one
character, so as many steps as there are characters are enough. -/
def readParameters :
    (fuel : Nat) → List Char → Except DescriptorError (List FieldType × List Char)
  | _, ')' :: rest => .ok ([], rest)
  | 0, _ => .error .abruptEnd
  | fuel + 1, chars => do
    let (type, rest) ← FieldType.read chars
    let (types, rest) ← readParameters fuel rest
    return (type :: types, rest)

/-- Reads a result type, which is the end of the text. -/
def readResult : List Char → Except DescriptorError (Option FieldType)
  | ['V'] => .ok none
  | 'V' :: _ => .error .trailingAfterResult
  | chars =>
    match FieldType.read chars with
    | .ok (type, []) => .ok (some type)
    | .ok (_, _ :: _) => .error .trailingAfterResult
    | .error error => .error error

/-- Reads the descriptor of a method. -/
def read : List Char → Except DescriptorError MethodType
  | '(' :: rest => do
    let (parameters, rest) ← readParameters (rest.length + 1) rest
    let result ← readResult rest
    return ⟨parameters, result⟩
  | _ => .error .missingParenthesis

/-- The types that a whole text describes. -/
def parse (descriptor : String) : Except Failure MethodType :=
  match read descriptor.toList with
  | .ok type => .ok type
  | .error error =>
    .error ((Failure.of (.descriptor error)).within (.methodDescriptor descriptor))

/-- How many local variable slots the parameters take. -/
def parameterSlots (type : MethodType) : Nat :=
  type.parameters.foldr (fun parameter slots => parameter.slots + slots) 0

end MethodType

end Bytescript
