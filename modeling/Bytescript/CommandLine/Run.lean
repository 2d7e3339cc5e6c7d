import Bytescript.CommandLine.NativesFile
import Bytescript.CommandLine.Report
import Bytescript.Files.ClassPath
import Bytescript.Program.Compile

/-!
# A run of the program

A run goes from a file tree and the arguments to an outcome: what is written, what is said, and
the file tree afterwards.  The class path is opened first, then the entry classes are settled and
the native bodies read.  An output file is emptied before anything is compiled, so it is also
there if that fails, and whatever was in it is not to be found on the class path any more.
-/

set_option autoImplicit false

namespace Bytescript.CommandLine

/-- The files as they are now, and what was noticed so far. -/
structure Session where
  files : FileTree
  notices : List Notice

/-- A part of a run, which may fail; what it did before that stays. -/
abbrev Action (α : Type) : Type := ExceptT Failure (StateM Session) α

namespace Action

/-- Notices something. -/
def notify (notice : Notice) : Action Unit :=
  modify fun session => { session with notices := session.notices ++ [notice] }

/-- The files as they are now. -/
def files : Action FileTree := return (← get).files

/-- Fails because of a fault in what the arguments name. -/
def reject {α : Type} (error : InputError) : Action α := throw (.of (.input error))

/-- Goes on with the result of a computation. -/
def take {α : Type} (result : Except Failure α) : Action α := ExceptT.mk (pure result)

/-! ## Before compiling -/

/-- Opens an entry of the class path, if it is there. -/
def openEntry (path : String) : Action (Option ClassPath.Entry) := do
  let tree ← files
  if tree.isDirectory path then return some (.directory path)
  else if tree.isFile path then return some (.archive (← take (ClassPath.openArchive tree path)))
  else
    notify (.ignoredEntry path)
    return none

/-- The entry classes: those that the arguments name, or else all that can be listed. -/
def entryClasses (arguments : Arguments) (classPath : List ClassPath.Entry) :
    Action (List ClassName) := do
  let classes ←
    if arguments.entries.isEmpty then
      let tree ← files
      let listed := classPath.flatMap (ClassPath.Entry.listed tree)
      notify (.listedClasses listed.length)
      pure listed
    else pure (arguments.entries.map ClassName.ofWritten)
  if classes.isEmpty then reject .noClasses else return classes

/-- Reads a file of native bodies. -/
def readNatives (path : String) : Action NativeBodies := do
  let tree ← files
  match tree.content? path with
  | some content =>
    match NativesFile.read? content with
    | some natives => return natives
    | none => reject (.malformedNatives path)
  | none => reject (if tree.isDirectory path then .malformedNatives path else .missingNatives path)

/-- What the program relies on besides its classes. -/
def settings (arguments : Arguments) : Action Settings := do
  let defaults := if arguments.keepsDefaults then Settings.default.provided else []
  let natives ← match arguments.natives with
    | none => pure NativeBodies.empty
    | some path => readNatives path
  return ⟨defaults ++ arguments.provided.map ClassName.ofWritten, natives⟩

/-- Gives the output file a content. -/
def writeOutput (path : String) (content : List UInt8) : Action Unit := do
  match (← files).write? path content with
  | some tree => modify fun session => { session with files := tree }
  | none => reject (.unwritableOutput path)

/-! ## Compiling -/

/-- Compiles the entry classes and everything that they need. -/
def compile (entries : List ClassName) (loader : Loader) (settings : Settings) :
    Action Program := do
  notify (.compiling entries.length)
  let reach ← take (Reachability.closeOver entries loader settings.provided)
  notify (.reached reach.classes.files.length reach.provided.length)
  let program ← take (Program.ofReachability reach settings)
  notify (.wrote program.codeSize)
  return program

/-- Does what the arguments say, and gives what is written to the standard output. -/
def perform (arguments : Arguments) : Action String := do
  let classPath := (← arguments.classPath.mapM openEntry).filterMap id
  let entries ← entryClasses arguments classPath
  let settings ← settings arguments
  arguments.output.forM fun path => writeOutput path []
  let tree ← files
  let loader := Loader.firstOf (classPath.map (ClassPath.Entry.loader tree))
  let program ← compile entries loader settings
  match arguments.output with
  | none => return program.text
  | some path =>
    writeOutput path program.text.toUTF8.toList
    return ""

end Action

/-! ## The outcome -/

/-- What a run leads to. -/
structure Outcome where
  exitCode : Nat
  /-- What is written to the standard output. -/
  output : String
  /-- The lines of notices and reports. -/
  messages : List String
  files : FileTree

/-- What compiling leads to. -/
def runCompiler (files : FileTree) (arguments : Arguments) : Outcome :=
  let (result, session) := (Action.perform arguments).run.run ⟨files, []⟩
  let shown := session.notices.filter (Notice.isShown arguments.verbosity)
  let lines := shown.map Notice.line
  match result with
  | .ok output => ⟨0, output, lines, session.files⟩
  | .error failure => ⟨1, "", lines ++ report failure, session.files⟩

/-- What some words as arguments lead to. -/
def run (files : FileTree) (words : List String) : Outcome :=
  match Arguments.ofWords words with
  | .ok arguments => runCompiler files arguments
  | .error .misuse => ⟨2, "", [], files⟩
  | .error (.help isLong) =>
    ⟨0, Script.unlines (if isLong then longHelp else shortHelp), [], files⟩
  | .error .version => ⟨0, Script.unlines [versionLine], [], files⟩

end Bytescript.CommandLine
