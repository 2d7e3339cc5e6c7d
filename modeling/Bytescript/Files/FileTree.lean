/-!
# Files and directories

A file tree holds files by their places, and lists directories besides those that hold something.
A place is the list of names that leads to it from the top.  A path is a text that is walked from
the working directory, or from the top if it begins with a slash: a point stays where it is, two
points go up, and every step has to start in a directory.  Paths and the names in them have a
greatest length, and longer ones lead nowhere.
-/

set_option autoImplicit false

namespace Bytescript

/-- The names that lead to a file or directory from the top. -/
abbrev Place : Type := List String

/-- Files, directories, and the place where relative paths start. -/
structure FileTree where
  files : List (Place × List UInt8)
  directories : List Place
  workingDirectory : Place

namespace FileTree

/-- The content of the file at a place. -/
def contentAt? (tree : FileTree) (place : Place) : Option (List UInt8) := tree.files.lookup place

/-- Whether there is a directory at a place: the top, a listed directory, or one that leads to
something. -/
def isDirectoryAt (tree : FileTree) (place : Place) : Bool :=
  place.isEmpty
    || tree.directories.any (fun directory => place.isPrefixOf directory)
    || tree.files.any (fun (file, _) => place.isPrefixOf file && place.length < file.length)

/-- Where a single step leads from a place. -/
def stepFrom (place : Place) (step : String) : Place :=
  if step = "" ∨ step = "." then place
  else if step = ".." then place.dropLast
  else place ++ [step]

/-- Takes steps from a place.  The last step may lead to nothing. -/
def walk (tree : FileTree) : Place → List String → Option Place
  | place, [] => some place
  | place, step :: rest =>
    if tree.isDirectoryAt place then tree.walk (stepFrom place step) rest else none

/-- The names of a path between its slashes. -/
def steps (path : String) : List String :=
  (path.toList.splitOn '/').map String.ofList

/-- The greatest length of a path in bytes. -/
def longestPath : Nat := 4095

/-- The greatest length of a name in bytes. -/
def longestName : Nat := 255

/-- Whether a path is not too long as a whole. -/
def fits (path : String) : Bool := path.utf8ByteSize ≤ longestPath

/-- The place that a path leads to, which may hold nothing.  The empty path leads nowhere, and so
does one that is too long or has a name that is. -/
def resolve? (tree : FileTree) (path : String) : Option Place :=
  let names := steps path
  if fits path && names.all fun name => name.utf8ByteSize ≤ longestName then
    match names with
    | [""] => none
    | "" :: rest => tree.walk [] rest
    | names => tree.walk tree.workingDirectory names
  else none

/-- The path that goes on from one with another.  A path that begins with a slash leads there from
the top, whatever is before it. -/
def join (path next : String) : String :=
  if next.toList.head? = some '/' then next
  else if path.toList.getLast?.any (· ≠ '/') then path ++ "/" ++ next
  else path ++ next

/-- Whether a path leads to a directory. -/
def isDirectory (tree : FileTree) (path : String) : Bool :=
  (tree.resolve? path).any tree.isDirectoryAt

/-- The content of the file that a path leads to. -/
def content? (tree : FileTree) (path : String) : Option (List UInt8) :=
  (tree.resolve? path).bind tree.contentAt?

/-- Whether a path leads to a file. -/
def isFile (tree : FileTree) (path : String) : Bool := (tree.content? path).isSome

/-- Puts a file at a place, where it replaces an earlier one. -/
def writeAt (tree : FileTree) (place : Place) (content : List UInt8) : FileTree :=
  { tree with
    files := (place, content) :: tree.files.filter fun (other, _) => other ≠ place }

/-- Writes a file, if its path leads to something that can be one. -/
def write? (tree : FileTree) (path : String) (content : List UInt8) : Option FileTree :=
  match tree.resolve? path with
  | none => none
  | some place =>
    if tree.isDirectoryAt place || !tree.isDirectoryAt place.dropLast then none
    else some (tree.writeAt place content)

/-- Whether a name comes before another one in the order of characters. -/
def nameBefore (first second : String) : Bool :=
  first.toList.lex second.toList fun left right => decide (left.toNat < right.toNat)

/-- The places of all files below the directory at a place, from there on and in order: the entries
of every directory by their names, with everything inside an entry before the next one. -/
def below (tree : FileTree) (directory : Place) : List Place :=
  let inside := tree.files.filterMap fun (place, _) =>
    if directory.isPrefixOf place then some (place.drop directory.length) else none
  inside.mergeSort fun first second => !second.lex first nameBefore

/-- The places of the files that are found below the directory that a path leads to.  A directory
can only be looked into if the path that goes on to it is not too long. -/
def found (tree : FileTree) (path : String) : List Place :=
  match tree.resolve? path with
  | none => []
  | some directory =>
    (tree.below directory).filter fun place => fits (place.dropLast.foldl join path)

end FileTree

end Bytescript
