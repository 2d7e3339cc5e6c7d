import Bytescript.CommandLine.Run

/-!
# The program

The program takes the part of the disk that its arguments name into a file tree, runs on that,
and writes down what the run leads to.
-/

set_option autoImplicit false

namespace Bytescript.Disk

/-- Adds a file, or a directory with all class files below it, that has a place in the tree. -/
partial def addEntry (tree : FileTree) (place : Place) (entry : IO.FS.DirEntry) :
    IO FileTree := do
  if ← entry.path.isDir then
    let mut result := { tree with directories := place :: tree.directories }
    for inner in ← entry.path.readDir do
      if (← inner.path.isDir) || (ClassName.fileStem? inner.fileName).isSome then
        result ← addEntry result (place ++ [inner.fileName]) inner
    return result
  else if ← entry.path.pathExists then
    return tree.writeAt place (← IO.FS.readBinFile entry.path).toList
  else return tree

/-- The place that some steps lead to, without looking whether they can be taken. -/
def placeOf (tree : FileTree) (steps : List String) : Place :=
  steps.foldl FileTree.stepFrom (if steps.head? = some "" then [] else tree.workingDirectory)

/-- Adds the directories on the way that a path takes. -/
def addDirectories (tree : FileTree) (path : String) : IO FileTree := do
  let steps := FileTree.steps path
  let mut result := tree
  for count in List.range (steps.length + 1) do
    let taken := steps.take count
    let entry : IO.FS.DirEntry := ⟨← IO.currentDir, String.intercalate "/" taken ++ "/"⟩
    if ← entry.path.isDir then
      result := { result with directories := placeOf result taken :: result.directories }
  return result

/-- Adds what a path leads to. -/
def addPath (tree : FileTree) (path : String) : IO FileTree := do
  let tree ← addDirectories tree path
  addEntry tree (placeOf tree (FileTree.steps path)) ⟨← IO.currentDir, path⟩

/-- The part of the disk that arguments name. -/
def read (arguments : CommandLine.Arguments) : IO FileTree := do
  let here := FileTree.steps (← IO.currentDir).toString
  let tree : FileTree := ⟨[], [here.drop 1], here.drop 1⟩
  let tree ← (arguments.classPath ++ arguments.natives.toList).foldlM addPath tree
  arguments.output.toList.foldlM addDirectories tree

/-- Writes the output file, if there is one after a run. -/
def write (arguments : CommandLine.Arguments) (files : FileTree) : IO Unit :=
  arguments.output.forM fun path => (files.content? path).forM fun content =>
    IO.FS.writeBinFile path ⟨content.toArray⟩

end Bytescript.Disk

open Bytescript in
def main (words : List String) : IO UInt32 := do
  let arguments := (CommandLine.Arguments.ofWords words).toOption
  let tree ← match arguments with
    | some arguments => Disk.read arguments
    | none => pure ⟨[], [], []⟩
  let outcome := CommandLine.run tree words
  arguments.forM fun arguments => Disk.write arguments outcome.files
  IO.print outcome.output
  outcome.messages.forM fun line => IO.eprintln line
  return UInt32.ofNat outcome.exitCode
