import Bytescript.ClassFile.Constant
import Bytescript.Decimal.Shortest
import Bytescript.Text.Quoted

/-!
# Annotations

An annotation has a type and named elements in the order of the class file, and the values of
elements may hold further annotations.  The module also shows values in the form that messages
use.
-/

set_option autoImplicit false

namespace Bytescript

mutual

/-- An annotation: the descriptor of its type, and its elements by name. -/
inductive AnnotationTree where
  | mk (type : String) (elements : List (String × AnnotationValue))

/-- The value of an element of an annotation. -/
inductive AnnotationValue where
  /-- A constant with the tag it is stored under. -/
  | primitive (tag : Char) (value : Constant)
  /-- A constant of an enumeration: the descriptor of its type, and its name. -/
  | enumConstant (type name : String)
  /-- A class literal, by its descriptor. -/
  | classLiteral (descriptor : String)
  | array (values : List AnnotationValue)
  | nested (tree : AnnotationTree)

end

namespace AnnotationTree

/-- The descriptor of the type of an annotation. -/
def type : AnnotationTree → String
  | mk type _ => type

/-- The elements of an annotation, in order. -/
def elements : AnnotationTree → List (String × AnnotationValue)
  | mk _ elements => elements

/-- The value of the element with a name. -/
def get? (tree : AnnotationTree) (name : String) : Option AnnotationValue :=
  tree.elements.lookup name

/-- Adds an element.  A name that is there already keeps its place and gets the new value. -/
def insertElement (name : String) (value : AnnotationValue) :
    List (String × AnnotationValue) → List (String × AnnotationValue)
  | [] => [(name, value)]
  | (other, old) :: rest =>
    if other = name then (name, value) :: rest
    else (other, old) :: insertElement name value rest

end AnnotationTree

namespace AnnotationValue

/-- The string a value holds, if it is one. -/
def asString? : AnnotationValue → Option JavaString
  | .primitive 's' (.string value) => some value
  | _ => none

/-- The values of an array. -/
def asArray? : AnnotationValue → Option (List AnnotationValue)
  | .array values => some values
  | _ => none

end AnnotationValue

/-! ## How messages show values -/

/-- A constant with the name of its kind. -/
def Constant.shown : Constant → String
  | .integer value => "Integer(" ++ toString value.toInt ++ ")"
  | .float bits => "Float(" ++ (Decimal.single.decode bits.toNat).diagnostic ++ ")"
  | .long value => "Long(" ++ toString value.toInt ++ ")"
  | .double bits => "Double(" ++ (Decimal.double.decode bits.toNat).diagnostic ++ ")"
  | .string value => "String(" ++ Text.quoteJava value ++ ")"

mutual

/-- An annotation with all its elements, on one line. -/
def AnnotationTree.shown : AnnotationTree → String
  | .mk type elements =>
    "Annotation \x7b type_descriptor: " ++ Text.quote type ++ ", elements: \x7b"
      ++ String.intercalate ", " (AnnotationTree.shownElements elements) ++ "\x7d \x7d"

/-- The elements of an annotation, each with its name. -/
def AnnotationTree.shownElements : List (String × AnnotationValue) → List String
  | [] => []
  | (name, value) :: rest =>
    (Text.quote name ++ ": " ++ value.shown) :: AnnotationTree.shownElements rest

/-- The value of an element, on one line. -/
def AnnotationValue.shown : AnnotationValue → String
  | .primitive tag value =>
    "Primitive(" ++ Text.quoteChar tag ++ ", " ++ value.shown ++ ")"
  | .enumConstant type name =>
    "EnumConstant \x7b type_descriptor: " ++ Text.quote type ++ ", const_name: "
      ++ Text.quote name ++ " \x7d"
  | .classLiteral descriptor => "ClassLiteral(" ++ Text.quote descriptor ++ ")"
  | .array values =>
    "Array([" ++ String.intercalate ", " (AnnotationValue.shownAll values) ++ "])"
  | .nested tree => "Nested(" ++ tree.shown ++ ")"

/-- The values of an array. -/
def AnnotationValue.shownAll : List AnnotationValue → List String
  | [] => []
  | value :: rest => value.shown :: AnnotationValue.shownAll rest

end

end Bytescript
