import Bytescript.Files.Archive
import Bytescript.Files.FileTree

/-!
# Class files in directories and archives

A class path names directories and archives.  A directory is asked for a class by the path that
the name of the class spells below it, at the time when the class is needed.  An archive is read
as a whole when it is opened.

The classes of a directory can also be listed: they are named by the files below it that have the
extension of class files, whatever is in them.
-/

set_option autoImplicit false

namespace Bytescript.ClassPath

/-! ## Directories -/

/-- The path of the file for a class.  A name that begins with a slash leads there from the top,
wherever the directory is. -/
def pathOf (directory : String) (name : ClassName) : String :=
  FileTree.join directory (name.text ++ ClassName.fileExtension)

/-- The loader that finds classes below a directory. -/
def directoryLoader (tree : FileTree) (directory : String) : Loader where
  files := tree.files.map fun (_, content) => .ok content
  find name :=
    (tree.resolve? (pathOf directory name)).bind fun place =>
      ((tree.files.map Prod.fst).finIdxOf? place).map (Fin.cast (by simp))

/-- What a file of a class is named for.  Nothing is named by a single point, so a second point
stays with it. -/
def listedStem (stem : String) : String := if stem = "." then ".." else stem

/-- The names that lead to a class, by those that lead to its file.  A file whose name is only the
extension is none of a class. -/
def classPlace? (place : Place) : Option Place := do
  let stem ← ClassName.fileStem? (← place.getLast?)
  if stem = "" then none
  else return place.dropLast ++ [listedStem stem]

/-- The classes that the files below a directory are named for, in the order of the files. -/
def classesBelow (tree : FileTree) (directory : String) : List ClassName :=
  ((tree.found directory).filterMap classPlace?).map fun names => ⟨String.intercalate "/" names⟩

/-! ## Archives -/

/-- Opens the archive that a path leads to.  A directory can be opened, but not read. -/
def openArchive (tree : FileTree) (path : String) : Except Failure ClassStore :=
  match tree.content? path with
  | some content => Archive.classes path content
  | none =>
    .error (.of (.input
      (if tree.isDirectory path then .unreadableArchive path else .unreadableFile path)))

/-! ## Both -/

/-- An entry of a class path. -/
inductive Entry where
  | directory (path : String)
  /-- An archive that is open. -/
  | archive (classes : ClassStore)

namespace Entry

/-- The loader of an entry, with the files as they are now. -/
def loader (tree : FileTree) : Entry → Loader
  | directory path => directoryLoader tree path
  | archive classes => classes.loader

/-- The classes that can be listed. -/
def listed (tree : FileTree) : Entry → List ClassName
  | directory path => classesBelow tree path
  | archive _ => []

end Entry

end Bytescript.ClassPath
