import Bytescript.ClassFile.Reader
import Bytescript.Classes.Table
import Bytescript.Program.Loader
import Bytescript.Program.Reference

/-!
# The classes of a program

A program consists of its entry classes and everything that they refer to, directly or through
others.  The classes are found breadth first, which also is the order in which they are written.
Some names are provided from outside: they are recorded but not loaded, and what is behind them
is not looked at.  It is a failure if any other class is missing.
-/

set_option autoImplicit false

namespace Bytescript

/-- The classes that a program needs. -/
structure Reachability where
  /-- The classes that were loaded, in the order they were found. -/
  classes : ClassTable
  /-- The provided classes that are referred to, in the order they were found. -/
  provided : List ClassName

namespace Reachability

/-- A class that was found, and the class that first referred to it, if it is not an entry. -/
structure Discovery where
  name : ClassName
  origin : Option ClassName
  deriving DecidableEq

/-- A search so far: all names that were found, those that wait, and what came of the others. -/
structure Search where
  found : List ClassName
  waiting : List Discovery
  result : Reachability

/-- Adds names to those that wait, unless they were found before. -/
def Search.discover (origin : Option ClassName) (search : Search) (name : ClassName) : Search :=
  if search.found.contains name then search
  else
    { search with
      found := name :: search.found
      waiting := search.waiting ++ [⟨name, origin⟩] }

/-- A search that only found the entries. -/
def Search.start (entries : List ClassName) : Search :=
  entries.foldl (Search.discover none) ⟨[], [], ⟨.empty, []⟩⟩

/-- Reads a class, which must have the name it was found by. -/
def readClass (name : ClassName) (bytes : List UInt8) : Except Failure ClassFile := do
  let file ← during (.readingClass name) (ClassFile.parse bytes)
  if file.name = name then return file
  else .error (.of (.format (.wrongClass name file.name)))

/-- Loads a class that was found. -/
def loadClass (lookup : Lookup) (discovery : Discovery) : Except Failure ClassFile := do
  match ← lookup discovery.name with
  | none => failCompile (.missingDependency discovery.name none discovery.origin)
  | some bytes => readClass discovery.name bytes

/-- Takes a name that waits: records it if it is provided, and loads it otherwise. -/
def Search.visit (lookup : Lookup) (provided : List ClassName) (discovery : Discovery)
    (search : Search) : Except Failure Search := do
  let result := search.result
  if provided.contains discovery.name then
    return { search with
      result := { result with provided := result.provided ++ [discovery.name] } }
  else
    let file ← loadClass lookup discovery
    let references ← during (.collectingReferences discovery.name) file.references
    let search := references.foldl (Search.discover (some discovery.name)) search
    return { search with result := { result with classes := result.classes.insert file } }

/-- Takes names until none waits, at most as many as there is fuel. -/
def Search.run (lookup : Lookup) (provided : List ClassName) :
    (fuel : Nat) → Search → Except Failure Search
  | 0, search => .ok search
  | fuel + 1, search =>
    match search.waiting with
    | [] => .ok search
    | discovery :: rest => do
      let search ← Search.visit lookup provided discovery { search with waiting := rest }
      Search.run lookup provided fuel search

/-- Finds everything that some classes need.  Every name is taken once, and apart from a missing
class at the end it is provided or has a file of its own, which bounds the number of steps.  The
result only depends on the files of the names that are taken (`closeOver_congr`). -/
def closeOver (entries : List ClassName) (loader : Loader) (provided : List ClassName) :
    Except Failure Reachability :=
  (Search.run loader.load provided (provided.length + loader.size + 1) (.start entries)).map
    Search.result

end Reachability

end Bytescript
