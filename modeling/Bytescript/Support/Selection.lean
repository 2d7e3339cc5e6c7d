import Bytescript.Script.Layout
import Bytescript.Support.Builtin
import Bytescript.Support.Function

/-!
# The part of the support library that a program includes

Each feature is written under its heading, followed by the builtin classes that belong to it.  A
builtin class is written if the program leaves it to the library.  If not, it is still written
when the functions of the library need it and the program brings no class of that name.
-/

set_option autoImplicit false

namespace Bytescript.Support

/-- Whether a builtin class has to be written. -/
def Builtin.isIncluded (builtin : Builtin) (provided translated : ClassName → Bool) : Bool :=
  provided builtin.name || (builtin.isUsedBySupport && !translated builtin.name)

/-- The builtin classes of a feature that have to be written. -/
def Feature.builtins (feature : Feature) (provided translated : ClassName → Bool) :
    List Builtin :=
  Builtin.all.filter fun builtin =>
    builtin.feature = feature && builtin.isIncluded provided translated

/-- A feature with its heading, its functions and its classes. -/
def Feature.written (feature : Feature) (provided translated : ClassName → Bool) :
    List String :=
  ("// " ++ feature.heading) :: feature.lines
    ++ (feature.builtins provided translated).flatMap Builtin.lines

/-- The lines of the support library for a set of features. -/
def FeatureSet.lines (set : FeatureSet) (provided translated : ClassName → Bool) :
    List String :=
  set.members.flatMap fun feature => feature.written provided translated

end Bytescript.Support
