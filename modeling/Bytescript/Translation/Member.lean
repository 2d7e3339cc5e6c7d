import Bytescript.Support.Builtin
import Bytescript.Translation.Stack

/-!
# Fields and methods

An instruction names a member by a class, but that class may have inherited it.  Here members are
looked up where they are declared, and turned into expressions.  A class that the support library
defines has instance methods only, and only those that the library lists, so a program that uses
anything else of it cannot be translated.
-/

set_option autoImplicit false

namespace Bytescript.Translation

open Script

/-! ## Members that are missing -/

/-- Whether a class may get a method from an interface or a subclass that is not known here. -/
def Site.mayInherit (site : Site) (referenced : ClassName) (name descriptor : String) : Bool :=
  match site.classes.find? referenced with
  | none => false
  | some file =>
    file.access.isAbstract || file.access.isInterface
      || site.classes.interfaceDeclares referenced name descriptor

/-- Fails if the search for a method, beginning at `referenced`, ended at a class of the support
library that does not have it. -/
def Site.checkMethod (site : Site) (referenced owner : ClassName) (name descriptor : String) :
    Except Failure Unit :=
  if site.classes.contains owner then .ok ()
  else if Support.Builtin.hasMethod? owner name descriptor ≠ some false then .ok ()
  else if site.mayInherit referenced name descriptor then .ok ()
  else site.missingMember owner (name ++ descriptor)

/-- Fails if a class is one of the support library. -/
def Site.checkNotBuiltin (site : Site) (owner : ClassName) (member : String) :
    Except Failure Unit :=
  if !site.classes.contains owner && (Support.Builtin.find? owner).isSome then
    site.missingMember owner member
  else .ok ()

/-! ## Fields -/

/-- The kind of the values of a field. -/
def fieldKind (field : MemberRef) : Except Failure Kind :=
  (FieldType.parse field.descriptor).map FieldType.kind

/-- The class that declares a field. -/
def Site.fieldOwner (site : Site) (field : MemberRef) : Except Failure ClassName := do
  let owner := site.classes.resolveField field.owner field.name
  site.checkNotBuiltin owner (field.name ++ ":" ++ field.descriptor)
  return owner

/-- A reference that must not be null. -/
def nonNull (reference : Variable) : Expression := .support .nonNull [.read reference]

/-- A static field. -/
def Site.staticField (site : Site) (field : MemberRef) : Except Failure Expression := do
  return .staticField (← site.fieldOwner field) field.name

/-- A field of an object. -/
def Site.instanceField (site : Site) (object : Variable) (field : MemberRef) :
    Except Failure Expression := do
  let owner ← site.fieldOwner field
  return .property (nonNull object) (site.classes.instanceProperty owner field.name)

/-- Puts the value of a static field on the stack. -/
def getStatic (site : Site) (field : MemberRef) : Simulation Effect := do
  let kind ← fieldKind field
  pushes kind (← site.staticField field)

/-- Stores a value in a static field. -/
def putStatic (site : Site) (field : MemberRef) : Simulation Effect := do
  let value ← pop site (← fieldKind field)
  return .plain [.store (← site.staticField field) (.read value)]

/-- Puts the value of a field of an object on the stack. -/
def getField (site : Site) (field : MemberRef) : Simulation Effect := do
  let kind ← fieldKind field
  let object ← pop site .reference
  pushes kind (← site.instanceField object field)

/-- Stores a value in a field of an object. -/
def putField (site : Site) (field : MemberRef) : Simulation Effect := do
  let value ← pop site (← fieldKind field)
  let object ← pop site .reference
  return .plain [.store (← site.instanceField object field) (.read value)]

/-! ## Methods -/

/-- Calls a method, and puts its result on the stack if there is one. -/
def call (type : MethodType) (expression : Expression) : Simulation Effect :=
  match type.result with
  | some result => pushes result.kind expression
  | none => pure (.plain [.evaluate expression])

/-- The descriptor of the method that gives the class of an object. -/
def classOfDescriptor : String := "()Ljava/lang/Class;"

/-- Whether a method is the one that gives the class of an object. -/
def isClassOf (method : MemberRef) : Bool :=
  method.name = "getClass" && method.descriptor = classOfDescriptor

/-- Checks that a receiver of a class can have a method.  Arrays have the methods of the root
class, and can be cloned. -/
def Site.checkVirtual (site : Site) (method : MemberRef) : Except Failure Unit :=
  if method.owner.isArray then
    if method.name = "clone" then .ok ()
    else site.checkMethod .object .object method.name method.descriptor
  else
    let owner := site.classes.resolveMethod method.owner method.name method.descriptor
    site.checkMethod method.owner owner method.name method.descriptor

/-- The call of a method that the class of the receiver chooses.  Arrays of the script do not have
the methods of the root class, so these are called exactly. -/
def virtualCall (method : MemberRef) (type : MethodType) (receiver : Variable)
    (arguments : List Variable) : Expression :=
  if method.owner.isArray then
    if method.name = "clone" then .support .cloneArray [.read receiver]
    else .exactCall .object method.name type (nonNull receiver :: arguments.map .read)
  else .methodCall (nonNull receiver) method.name type (arguments.map .read)

/-- Calls a method that the class of the receiver chooses. -/
def invokeVirtual (site : Site) (method : MemberRef) : Simulation Effect := do
  let type ← MethodType.parse method.descriptor
  let arguments ← popArguments site type.parameters
  let receiver ← pop site .reference
  site.checkVirtual method
  call type (virtualCall method type receiver arguments)

/-- Calls a method exactly.  A constructor is called on an object that was just made, which
cannot be null. -/
def invokeSpecial (site : Site) (method : MemberRef) : Simulation Effect := do
  let type ← MethodType.parse method.descriptor
  let arguments ← popArguments site type.parameters
  let receiver ← pop site .reference
  let owner := site.classes.resolveMethod method.owner method.name method.descriptor
  site.checkMethod method.owner owner method.name method.descriptor
  let object := if method.name = constructorName then .read receiver else nonNull receiver
  call type (.exactCall owner method.name type (object :: arguments.map .read))

/-- Calls a static method. -/
def invokeStatic (site : Site) (method : MemberRef) : Simulation Effect := do
  let type ← MethodType.parse method.descriptor
  let arguments ← popArguments site type.parameters
  let owner := site.classes.resolveMethod method.owner method.name method.descriptor
  site.checkNotBuiltin owner (method.name ++ method.descriptor)
  call type (.staticCall owner method.name type (arguments.map .read))

end Bytescript.Translation
