import Bytescript.Translation.Method
import Bytescript.Translation.NativeBody

/-!
# Translating classes

A class becomes a constructor function that gives every instance field its first value, a call
that registers the class, the static fields, and the methods.  A constructor function first calls
the one of the super class, so an object gets the fields of all its classes.
-/

set_option autoImplicit false

namespace Bytescript.Translation

open Script

/-- Finished lines of the script, and the features of the support library that they need. -/
structure Written where
  lines : List String
  features : List Support.Feature

/-- Nothing at all. -/
def Written.nothing : Written := ⟨[], []⟩

/-- One piece after another. -/
def Written.append (first second : Written) : Written :=
  ⟨first.lines ++ second.lines, first.features ++ second.features⟩

/-! ## Fields -/

/-- The value of a field that nothing was stored in yet. -/
def defaultValue : Kind → Expression
  | .int | .float | .double => .int 0
  | .long => .constant (.long 0)
  | .reference => .null

/-- The first value of a field that has no constant. -/
def initialValue (field : Field) : Except Failure Expression := do
  return defaultValue (← FieldType.parse field.descriptor).kind

/-- The line that gives an instance field its first value. -/
def instanceFieldLine (classes : ClassTable) (owner : ClassName) (field : Field) :
    Except Failure Line := do
  let value ← initialValue field
  return .plain
    ("this." ++ classes.instanceProperty owner field.name ++ " = " ++ value.text ++ ";")

/-- The line that gives a static field its first value, which may be a constant. -/
def staticFieldLine (owner : ClassName) (field : Field) : Except Failure Line := do
  let value ← match field.constant with
    | some value => pure (.constant value)
    | none => initialValue field
  return .plain (Statement.store (.staticField owner field.name) value).text

/-! ## The constructor function -/

/-- The class whose constructor function is called first.  Interfaces call none. -/
def parentOf (file : ClassFile) : Option ClassName :=
  if file.access.isInterface then none else file.superClass

/-- The lines of the constructor function. -/
def constructorLines (classes : ClassTable) (file : ClassFile) : Except Failure (List Line) := do
  let fields := file.fields.filter fun field => !field.access.isStatic
  let body ← fields.mapM (instanceFieldLine classes file.name)
  let parent := (parentOf file).toList.map fun parent =>
    Line.plain (classIdentifier parent ++ ".call(this);")
  return .opening ("function " ++ classIdentifier file.name ++ "() \x7b") :: parent ++ body
    ++ [.closing "\x7d"]

/-- The line that registers a class. -/
def registrationLine (file : ClassFile) : Line :=
  let parent := ((parentOf file).map classIdentifier).getD "null"
  let interfaces := String.intercalate ", " (file.interfaces.map classIdentifier)
  .plain (Support.Function.defineClass.path ++ "(" ++ classIdentifier file.name ++ ", "
    ++ textLiteral file.name.text ++ ", " ++ parent ++ ", [" ++ interfaces ++ "], "
    ++ (if file.access.isInterface then "true" else "false") ++ ");")

/-! ## Methods -/

/-- A text without the line break at its end, if there is one. -/
def withoutLineBreak (text : String) : String :=
  let chars := text.toList
  if chars.getLast? = some '\n' then String.ofList chars.dropLast else text

/-- A function with a body that is taken as it is. -/
def nativeFunction (owner : ClassName) (method : Method) (body : NativeBody) :
    Except Failure Written := do
  let type ← MethodType.parse method.descriptor
  let isStatic := method.access.isStatic
  return ⟨[functionHead owner method.name type isStatic body.parameters,
    withoutLineBreak body.text, functionEnd isStatic], []⟩

/-- The function of a method.  There is none for an abstract method. -/
def methodFunction (classes : ClassTable) (natives : NativeBodies) (file : ClassFile)
    (method : Method) : Except Failure Written := do
  match ← natives.find file.name method with
  | some body => nativeFunction file.name method body
  | none =>
    if method.access.isNative then
      failCompile (.missingNativeBody file.name method.name method.descriptor)
    else if method.code.isNone then return .nothing
    else
      let code ← translateMethod classes file method
      return ⟨code.text, code.features⟩

/-- Translates a class. -/
def translateClass (classes : ClassTable) (natives : NativeBodies) (file : ClassFile) :
    Except Failure Written := do
  let constructor ← constructorLines classes file
  let statics ← (file.fields.filter fun field => field.access.isStatic).mapM
    (staticFieldLine file.name)
  let methods ← file.methods.mapM fun method =>
    during (.translatingMethod file.name method.name method.descriptor)
      (methodFunction classes natives file method)
  let head := Line.plain ("// " ++ file.name.text) :: constructor
    ++ registrationLine file :: statics
  return methods.foldl Written.append ⟨Line.indentAll 0 head, []⟩

end Bytescript.Translation
