import Bytescript.Classes.Table
import Bytescript.Program.Reference

/-!
# The order of static initializers

All static initializers run one after the other when a program starts.  The initializer of a
class comes after those of the classes that it uses: the super class, and the classes whose
static members it touches or of which it makes instances.  Static methods and constructors that
are called on the way are looked into.  If classes use each other in a circle, the one that is
reached first comes last.
-/

set_option autoImplicit false

namespace Bytescript.StartOrder

/-- What has to be looked into. -/
inductive Task where
  /-- The class has to be initialized. -/
  | prepare (name : ClassName)
  /-- The method is called. -/
  | follow (method : MemberRef)
  deriving DecidableEq

/-- What was looked into so far: all that was reached, and all that is finished, both in order. -/
structure Progress where
  reached : List Task
  finished : List Task

namespace Progress

/-- Nothing was looked into. -/
def start : Progress := ⟨[], []⟩

/-- Begins to look into something. -/
def reach (task : Task) (progress : Progress) : Progress :=
  { progress with reached := progress.reached ++ [task] }

/-- Is done with looking into something. -/
def finish (task : Task) (progress : Progress) : Progress :=
  { progress with finished := progress.finished ++ [task] }

end Progress

/-- What an instruction asks to look into. -/
def tasksOfInstruction : Instruction → List Task
  | .getStatic field | .putStatic field => [.prepare field.owner]
  | .invokeStatic method _ => [.prepare method.owner, .follow method]
  | .new name => [.prepare name]
  | .invokeSpecial method _ => if method.name = constructorName then [.follow method] else []
  | _ => []

/-- What the code of a method asks to look into. -/
def tasksOfMethod (file : ClassFile) (name descriptor : String) : Except Failure (List Task) :=
  match (file.method? name descriptor).bind Method.code with
  | none => .ok []
  | some code => do
    let instructions ← during (.decodingMethodOf file.name name descriptor)
      (file.instructionsOf code)
    return instructions.flatMap fun placed => tasksOfInstruction placed.instruction

/-- The static initializer of a class. -/
def initializerOf (name : ClassName) : MemberRef := ⟨name, initializerName, emptyDescriptor⟩

/-- Whether a class has a static initializer. -/
def hasInitializer (file : ClassFile) : Bool :=
  (file.method? initializerName emptyDescriptor).isSome

/-- The class that is initialized once something is done: a class with a static initializer. -/
def startedBy (table : ClassTable) : Task → Option ClassName
  | .prepare name => if (table.find? name).any hasInitializer then some name else none
  | .follow _ => none

/-- What a class or a method asks to look into.  Those that are not known ask for nothing. -/
def tasksOf (table : ClassTable) : Task → Except Failure (List Task)
  | .prepare name =>
    match table.find? name with
    | none => .ok []
    | some file => .ok (file.superClass.toList.map Task.prepare
        ++ if hasInitializer file then [.follow (initializerOf name)] else [])
  | .follow method =>
    match table.find? method.owner with
    | none => .ok []
    | some file => tasksOfMethod file method.name method.descriptor

/-- Looks into something, unless it was reached before, and first into all that it asks for. -/
def visit (table : ClassTable) : (fuel : Nat) → Progress → Task → Except Failure Progress
  | 0, progress, _ => .ok progress
  | fuel + 1, progress, task =>
    if progress.reached.contains task then .ok progress
    else do
      let tasks ← tasksOf table task
      let progress ← tasks.foldlM (fun progress task => visit table fuel progress task)
        (progress.reach task)
      return progress.finish task

/-- A bound for the depth of the search: all classes and all methods, which are all that can ask
for anything, and one for a last look at something else. -/
def depthBound (table : ClassTable) : Nat :=
  table.files.foldr (fun file bound => file.methods.length + bound) (table.size + 1)

/-- Looks into all classes, one after the other. -/
def search (table : ClassTable) : Except Failure Progress :=
  (table.names.map Task.prepare).foldlM
    (fun progress task => visit table (depthBound table) progress task) .start

/-- The classes with static initializers, in the order in which these run. -/
def orderOf (table : ClassTable) : Except Failure (List ClassName) :=
  (search table).map fun progress => progress.finished.filterMap (startedBy table)

end Bytescript.StartOrder
