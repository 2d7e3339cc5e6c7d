import Bytescript.ClassFile.Basic
import Bytescript.Failure

/-!
# Bodies in the script itself

A method may come with a body that is written in the script already, which is then taken as it
is.  Such bodies are given from outside, or by one of two annotations on the method, whose
element `body` holds the text and whose optional element `args` the names of the parameters.
What is given from outside counts first.
-/

set_option autoImplicit false

namespace Bytescript

/-- A function of the script: the names of its parameters, and the text of its body. -/
structure NativeBody where
  parameters : List String
  text : String
  deriving DecidableEq

/-- Bodies of methods.  A method is identified by its class, a point, its name and its descriptor
in one text, which is unambiguous for the names that class files allow. -/
structure NativeBodies where
  entries : List (String × NativeBody)

namespace NativeBodies

/-- The text that identifies a method. -/
def key (owner : ClassName) (name descriptor : String) : String :=
  owner.text ++ "." ++ name ++ descriptor

/-- No bodies. -/
def empty : NativeBodies := ⟨[]⟩

/-- Replaces the body under a key, or adds it at the end. -/
def insertEntry (key : String) (body : NativeBody) :
    List (String × NativeBody) → List (String × NativeBody)
  | [] => [(key, body)]
  | (other, old) :: rest =>
    if other = key then (key, body) :: rest else (other, old) :: insertEntry key body rest

/-- Gives a method a body. -/
def insert (bodies : NativeBodies) (owner : ClassName) (name descriptor : String)
    (body : NativeBody) : NativeBodies :=
  ⟨insertEntry (key owner name descriptor) body bodies.entries⟩

/-- The body of a method. -/
def get? (bodies : NativeBodies) (owner : ClassName) (name descriptor : String) :
    Option NativeBody :=
  bodies.entries.lookup (key owner name descriptor)

/-- How many methods have a body. -/
def size (bodies : NativeBodies) : Nat := bodies.entries.length

/-- Whether no method has a body. -/
def isEmpty (bodies : NativeBodies) : Bool := bodies.entries.isEmpty

end NativeBodies

namespace NativeBody

/-- The types of the annotations that carry a body, in the order in which they count. -/
def carriers : List String :=
  ["Lorg/apidesign/bck2brwsr/core/JavaScriptBody;", "Lnet/java/html/js/JavaScriptBody;"]

/-- Fails because an annotation does not carry what it should. -/
def reject {α : Type} (error : NativeBodyError) : Except Failure α :=
  .error (.of (.native error))

/-- The text that the value of an element holds. -/
def textOf (value : AnnotationValue) : Except Failure String :=
  match value.asString? with
  | none => reject (.notString value)
  | some string =>
    match string.toString? with
    | none => reject (.notUnicode value)
    | some text => .ok text

/-- The names of the parameters that an annotation gives. -/
def parametersOf (tree : AnnotationTree) : Except Failure (List String) :=
  match tree.get? "args" with
  | none => .ok []
  | some value =>
    match value.asArray? with
    | none => reject (.argumentsNotArray tree.type)
    | some values => values.mapM textOf

/-- The body that an annotation carries. -/
def ofTree (tree : AnnotationTree) : Except Failure NativeBody := do
  let parameters ← parametersOf tree
  match tree.get? "body" with
  | none => reject (.missingBody tree.type)
  | some value => return ⟨parameters, ← textOf value⟩

end NativeBody

/-- The body of a method, from outside or from an annotation, if it has one. -/
def NativeBodies.find (bodies : NativeBodies) (owner : ClassName) (method : Method) :
    Except Failure (Option NativeBody) :=
  match bodies.get? owner method.name method.descriptor with
  | some body => .ok (some body)
  | none =>
    match NativeBody.carriers.findSome? method.annotationOfType? with
    | none => .ok none
    | some tree => (NativeBody.ofTree tree).map some

end Bytescript
