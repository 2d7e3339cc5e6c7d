/-!
# Features of the support library

The support library is split into features, and a program only includes those it uses.  A
feature may call into others, so a set of features always contains everything its members
depend on.  The features of a set are listed in one fixed order, which is also the order in
which they are written.
-/

set_option autoImplicit false

namespace Bytescript.Support

/-- A part of the support library. -/
inductive Feature where
  | classModel
  | exceptions
  | nullChecks
  | arithmetic
  | conversions
  | compares
  | longs
  | typeChecks
  | arrays
  | classLiterals
  deriving DecidableEq

namespace Feature

/-- All features, in the order they are written. -/
def all : List Feature :=
  [classModel, exceptions, nullChecks, arithmetic, conversions, compares, longs, typeChecks,
    arrays, classLiterals]

/-- The features that a feature calls into itself. -/
def dependencies : Feature → List Feature
  | classModel => []
  | exceptions => [classModel]
  | nullChecks => [exceptions]
  | arithmetic => [exceptions]
  | conversions => []
  | compares => []
  | longs => []
  | typeChecks => [classModel, exceptions]
  | arrays => [nullChecks, typeChecks]
  | classLiterals => [classModel]

/-- The heading above a feature in the output. -/
def heading : Feature → String
  | classModel => "class model"
  | exceptions => "exceptions"
  | nullChecks => "null checks"
  | arithmetic => "arithmetic"
  | conversions => "conversions"
  | compares => "compares"
  | longs => "longs"
  | typeChecks => "type checks"
  | arrays => "arrays"
  | classLiterals => "class literals"

/-- A feature and everything it leads to in at most `steps` steps. -/
def within : (steps : Nat) → Feature → List Feature
  | 0, feature => [feature]
  | steps + 1, feature => feature :: feature.dependencies.flatMap (within steps)

/-- A feature and everything it depends on.  No chain of dependencies is longer than the list of
all features. -/
def closure (feature : Feature) : List Feature := within all.length feature

end Feature

/-- A set of features that contains the dependencies of its members. -/
structure FeatureSet where
  members : List Feature
  deriving DecidableEq

namespace FeatureSet

/-- No features. -/
def empty : FeatureSet := ⟨[]⟩

/-- Whether a feature is in a set. -/
def contains (set : FeatureSet) (feature : Feature) : Bool := set.members.contains feature

/-- Adds a feature with everything it depends on. -/
def insert (set : FeatureSet) (feature : Feature) : FeatureSet :=
  ⟨Feature.all.filter fun other => set.contains other || feature.closure.contains other⟩

/-- Adds several features. -/
def insertAll (set : FeatureSet) (features : List Feature) : FeatureSet :=
  features.foldl insert set

end FeatureSet

end Bytescript.Support
