import Bytescript.Classes.Table
import Bytescript.Script.Name

/-!
# Inheritance

Where a member that an instruction names is really declared.  The table only knows the classes of
the program itself; a search that leaves the table stops at the first class it does not know.

A chain of super classes or interfaces inside the table is not longer than the table, provided
that it does not run in a circle, so every search takes at most as many steps as there are
classes.
-/

set_option autoImplicit false

namespace Bytescript.ClassTable

/-- Whether a class is known and is an interface. -/
def isInterface (table : ClassTable) (name : ClassName) : Bool :=
  (table.find? name).any fun file => file.access.isInterface

/-- A class and its super classes, as far as they are known. -/
def lineage (table : ClassTable) : (fuel : Nat) → ClassName → List ClassFile
  | 0, _ => []
  | fuel + 1, name =>
    match table.find? name with
    | none => []
    | some file =>
      match file.superClass with
      | none => [file]
      | some superClass => file :: table.lineage fuel superClass

/-- A class and all its known super classes. -/
def ancestry (table : ClassTable) (name : ClassName) : List ClassFile :=
  table.lineage table.size name

/-! ## Fields -/

/-- The first class that declares a field: the class itself, or else what its interfaces and then
its super class lead to. -/
def findField (table : ClassTable) (field : String) : (fuel : Nat) → ClassName → Option ClassName
  | 0, _ => none
  | fuel + 1, name =>
    match table.find? name with
    | none => none
    | some file =>
      if (file.field? field).isSome then some name
      else
        (file.interfaces ++ file.superClass.toList).findSome? fun parent =>
          table.findField field fuel parent

/-- The class that declares a field, or the given class if none is found. -/
def resolveField (table : ClassTable) (name : ClassName) (field : String) : ClassName :=
  (table.findField field table.size name).getD name

/-- How many super classes a class has, the first unknown one included. -/
def depth (table : ClassTable) (name : ClassName) : Nat :=
  (table.ancestry name).countP fun file => file.superClass.isSome

/-- Whether a class declares an instance field. -/
def declaresInstanceField (file : ClassFile) (field : String) : Bool :=
  file.fields.any fun other => other.name = field && !other.access.isStatic

/-- The property that an instance field is stored in.  All fields of an object live in one place,
so a field that has the name of a field of a super class gets the depth of its class as well. -/
def instanceProperty (table : ClassTable) (owner : ClassName) (field : String) : String :=
  let identifier := Script.fieldIdentifier field
  if (table.ancestry owner).tail.any fun file => declaresInstanceField file field then
    identifier ++ "$" ++ toString (table.depth owner)
  else identifier

/-! ## Methods -/

/-- The first class on the way up that declares a method or is not known.  If the way ends before
that, `origin` is the answer. -/
def findMethod (table : ClassTable) (origin : ClassName) (method descriptor : String) :
    (fuel : Nat) → ClassName → ClassName
  | 0, _ => origin
  | fuel + 1, name =>
    match table.find? name with
    | none => name
    | some file =>
      if (file.method? method descriptor).isSome then name
      else if file.access.isInterface then origin
      else
        match file.superClass with
        | none => origin
        | some superClass => table.findMethod origin method descriptor fuel superClass

/-- The class that declares a method, searching a class and its super classes. -/
def resolveMethod (table : ClassTable) (name : ClassName) (method descriptor : String) :
    ClassName :=
  table.findMethod name method descriptor (table.size + 1) name

/-- Whether a known interface declares a method, itself or through its own interfaces. -/
def inheritsFrom (table : ClassTable) (method descriptor : String) :
    (fuel : Nat) → (interface : ClassName) → Bool
  | 0, _ => false
  | fuel + 1, interface =>
    match table.find? interface with
    | none => false
    | some file =>
      (file.method? method descriptor).isSome
        || file.interfaces.any fun parent => table.inheritsFrom method descriptor fuel parent

/-- Whether a known interface of a class or of one of its super classes declares a method. -/
def interfaceDeclares (table : ClassTable) (name : ClassName) (method descriptor : String) :
    Bool :=
  (table.ancestry name).any fun file =>
    file.interfaces.any fun interface =>
      table.inheritsFrom method descriptor table.size interface

end Bytescript.ClassTable
