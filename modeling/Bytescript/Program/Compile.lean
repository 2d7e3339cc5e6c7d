import Bytescript.Program.Reachability
import Bytescript.Program.StartOrder
import Bytescript.Support.Selection
import Bytescript.Translation.Class

/-!
# Compiling programs

A compiled program is one script: the part of the support library it needs, its classes in the
order they were found, the call that links them, and calls of their static initializers.
-/

set_option autoImplicit false

namespace Bytescript

/-- What a program relies on besides its classes. -/
structure Settings where
  /-- The names of classes that exist already when the script runs. -/
  provided : List ClassName
  natives : NativeBodies

/-- By default, everything that the support library defines is provided, and no method has a
body from outside. -/
def Settings.default : Settings := ⟨Support.Builtin.names, .empty⟩

/-- A compiled program, by the lines of its parts. -/
structure Program where
  support : List String
  classes : List String
  /-- The calls of the static initializers. -/
  starts : List String

namespace Program

/-- The line that links the classes. -/
def linkLine : String := Support.Function.link.path ++ "();"

/-- The line that calls the static initializer of a class. -/
def startLine (name : ClassName) : String :=
  Script.staticFunction name initializerName ⟨[], none⟩ ++ "();"

/-- The lines of a program. -/
def lines (program : Program) : List String :=
  program.support ++ program.classes ++ linkLine :: program.starts

/-- The whole script. -/
def text (program : Program) : String := Script.unlines program.lines

/-- The size of the support library and the classes in bytes. -/
def codeSize (program : Program) : Nat :=
  (Script.unlines (program.support ++ program.classes)).utf8ByteSize

/-- Translates the classes of a program that were found. -/
def ofReachability (reach : Reachability) (settings : Settings) : Except Failure Program := do
  let pieces ← reach.classes.files.mapM fun file =>
    during (.translatingClass file.name)
      (Translation.translateClass reach.classes settings.natives file)
  let order ← StartOrder.orderOf reach.classes
  let features := Support.Feature.classModel
    :: reach.provided.filterMap Support.Builtin.featureOf?
    ++ pieces.flatMap Translation.Written.features
  return {
    support := (Support.FeatureSet.empty.insertAll features).lines
      settings.provided.contains reach.classes.contains
    classes := pieces.flatMap Translation.Written.lines
    starts := order.map startLine }

/-- Compiles some classes and everything that they need. -/
def compile (entries : List ClassName) (loader : Loader) (settings : Settings) :
    Except Failure Program := do
  ofReachability (← Reachability.closeOver entries loader settings.provided) settings

end Program

end Bytescript
