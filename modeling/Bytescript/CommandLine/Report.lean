import Bytescript.CommandLine.Help
import Bytescript.Failure
import Bytescript.Text.Quoted

/-!
# What the program says about its work

Notices are about a run that goes on, and a report is about why one did not.  A notice has a
level: warnings are always shown, and the rest only to those who ask for it.
-/

set_option autoImplicit false

namespace Bytescript.CommandLine

/-- Something that happens during a run. -/
inductive Notice where
  | ignoredEntry (path : String)
  | listedClasses (count : Nat)
  | compiling (entries : Nat)
  | reached (classes provided : Nat)
  | wrote (bytes : Nat)
  deriving DecidableEq

namespace Notice

/-- Whether a notice warns of something. -/
def isWarning : Notice → Bool
  | ignoredEntry _ => true
  | _ => false

/-- Whether a notice is about the compiler and not about the arguments. -/
def isOfCompiler : Notice → Bool
  | ignoredEntry _ | listedClasses _ => false
  | compiling _ | reached _ _ | wrote _ => true

/-- Whether a notice is shown, by how often verbosity was asked for. -/
def isShown (verbosity : Nat) (notice : Notice) : Bool := notice.isWarning || 0 < verbosity

/-- What a notice says. -/
def message : Notice → String
  | ignoredEntry path =>
    "classpath entry " ++ Text.quote path ++ " doesn't exist, ignoring it"
  | listedClasses count => s!"found {count} classes in the classpath directories"
  | compiling entries => s!"compiling {entries} entry classes"
  | reached classes provided =>
    s!"found {classes} classes to translate, {provided} provided ones are referenced"
  | wrote bytes => s!"wrote {bytes} bytes of javascript"

/-- The line of a notice, with its level and its origin. -/
def line (notice : Notice) : String :=
  "[" ++ (if notice.isWarning then "WARN" else "INFO") ++ " "
    ++ (if notice.isOfCompiler then "dukejs" else programName) ++ "] " ++ notice.message

end Notice

/-- A line without the carriage return that may be part of its end. -/
def withoutReturn (line : List Char) : List Char :=
  if line.getLast? = some '\r' then line.dropLast else line

/-- The lines of a text. -/
def linesOf (text : String) : List String :=
  (text.toList.splitOn '\n').map fun line => String.ofList (withoutReturn line)

/-- Puts a mark in front of the first line, and blanks of the same width in front of the others. -/
def underMark (mark : String) (lines : List String) : List String :=
  match lines with
  | [] => []
  | first :: rest => (mark ++ first) :: rest.map (padTo mark.length "" ++ ·)

/-- The mark of a cause, which has its number if there are others. -/
def causeMark (count index : Nat) : String :=
  if count = 1 then "    "
  else
    let number := toString index
    padTo (5 - number.length) "" ++ number ++ ": "

/-- The report of a failure: its outermost message, and below that what led to it, from there on
inwards. -/
def report (failure : Failure) : List String :=
  match failure.messages with
  | [] => []
  | outermost :: causes =>
    linesOf ("Error: " ++ outermost)
      ++ if causes.isEmpty then []
        else
          ["", "Caused by:"]
            ++ (causes.zipIdx.map fun (cause, index) =>
              underMark (causeMark causes.length index) (linesOf cause)).flatten

end Bytescript.CommandLine
