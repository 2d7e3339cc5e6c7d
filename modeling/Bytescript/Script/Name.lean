import Bytescript.ClassFile.Descriptor
import Bytescript.Text.Hex

/-!
# Names in the script

Class files allow nearly every character in names, identifiers of the script only a few.  Letters,
digits and the dollar sign are kept; a slash becomes an underscore, and everything else an escape
that starts with one: `_1` for the underscore itself, `_2` and `_3` for the two characters that
descriptors use most, and `_0` with four hexadecimal digits for each UTF-16 unit of the rest.

A class is named by its constructor function and an instance method by its name followed by its
result and parameter types.  Static methods are global functions, with the class in front.

Names may clash where a part of a class name begins with a digit, which then looks like an
escape, and where the types after a method name could belong to the name.
-/

set_option autoImplicit false

namespace Bytescript.Script

/-- Characters that stand for themselves. -/
def isPlain (char : Char) : Bool := char.isAlphanum || char = '$'

/-- A character of a name. -/
def escapeNameChar (char : Char) : List Char :=
  if isPlain char then [char]
  else if char = '/' then ['_']
  else if char = '_' then ['_', '1']
  else if char = ';' then ['_', '2']
  else if char = '[' then ['_', '3']
  else (CodePoint.ofChar char).units.flatMap fun unit => '_' :: '0' :: Text.hexDigits 4 unit

/-- The characters of a name. -/
def escapeName (name : List Char) : List Char := name.flatMap escapeNameChar

/-- The constructor function of a class. -/
def classIdentifier (name : ClassName) : String := String.ofList (escapeName name.text.toList)

/-- A type inside the name of a method. -/
def typeChars : FieldType → List Char
  | .primitive type => [type.letter]
  | .object name => 'L' :: escapeName name.text.toList
  | .array element => '_' :: '3' :: typeChars element

/-- The name of a method without its types.  The two special names become words. -/
def methodWord (name : String) : List Char :=
  if name = constructorName then "cons".toList
  else if name = initializerName then "clinit".toList
  else escapeName name.toList

/-- The name of a method of a given type. -/
def methodChars (name : String) (type : MethodType) : List Char :=
  methodWord name
    ++ (match type.result with
      | some result => typeChars result
      | none => ['V'])
    ++ type.parameters.flatMap typeChars

/-- The property that an instance method is stored in. -/
def methodProperty (name : String) (type : MethodType) : String :=
  String.ofList (methodChars name type)

/-- The global function of a static method. -/
def staticFunction (owner : ClassName) (name : String) (type : MethodType) : String :=
  classIdentifier owner ++ "_" ++ methodProperty name type

/-- The property of an instance method, by its descriptor. -/
def methodIdentifier (name descriptor : String) : Except Failure String :=
  (MethodType.parse descriptor).map (methodProperty name)

/-- The global function of a static method, by its descriptor. -/
def staticIdentifier (owner : ClassName) (name descriptor : String) : Except Failure String :=
  (MethodType.parse descriptor).map (staticFunction owner name)

/-- The property that a field is stored in, unless it is shadowed. -/
def fieldIdentifier (name : String) : String :=
  String.ofList ("fld_".toList ++ escapeName name.toList)

end Bytescript.Script
