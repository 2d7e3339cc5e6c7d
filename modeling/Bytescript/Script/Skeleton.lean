import Bytescript.Script.Layout
import Bytescript.Script.Statement

/-!
# Structured code over blocks

The blocks of a method are put together in one of two ways.  A `Skeleton` nests them: labelled
parts that are left from inside, endless loops that are continued from inside, branches, switches
and handlers of exceptions.  A `Dispatch` keeps the blocks side by side as the cases of a switch
inside an endless loop, and a variable says which block is next.

Labels are the offsets at which blocks start, so a skeleton can be read next to the bytecode.
The module also writes both forms as lines.
-/

set_option autoImplicit false

namespace Bytescript.Script

mutual

/-- Nested code over the blocks of a method. -/
inductive Skeleton where
  /-- Does nothing, since the statements before never complete. -/
  | nothing
  /-- Runs the statements of a block, and goes on to the recovery if they throw. -/
  | block (index : Nat) (statements : List Statement) (recovery : Recovery)
  | andThen (first second : Skeleton)
  /-- A part that can be left from inside. -/
  | labelled (label : Nat) (body : Skeleton)
  /-- An endless loop that can be continued from inside. -/
  | loop (label : Nat) (body : Skeleton)
  | breakTo (label : Nat)
  | continueTo (label : Nat)
  /-- Goes on with another case of a dispatch. -/
  | dispatchTo (label : Nat)
  | choose (condition : Expression) (yes no : Skeleton)
  | switch (key : Variable) (cases : Cases)
  | leave (value : Option Variable)

/-- The cases of a switch, each for some keys and perhaps for all that are not listed. -/
inductive Cases where
  | nil
  | cons (keys : List Int32) (isDefault : Bool) (body : Skeleton) (rest : Cases)

/-- What happens to an exception.  A body finds it in the variable of the lowest reference on the
stack. -/
inductive Recovery where
  /-- The exception is passed on. -/
  | rethrow
  | always (body : Skeleton)
  /-- Runs the body for instances of some classes. -/
  | whenAny (classes : List ClassName) (body : Skeleton) (otherwise : Recovery)

end

/-- Blocks side by side, each labelled by the offset at which it starts. -/
structure Dispatch where
  /-- The block to start with. -/
  entry : Nat
  cases : List (Nat × Skeleton)
  /-- The blocks whose exceptions are handled. -/
  recoveries : List (Nat × Recovery)

/-- The code of a method. -/
inductive Body where
  | structured (skeleton : Skeleton)
  | dispatched (dispatch : Dispatch)

/-! ## Exceptions -/

/-- Turns what was caught into an exception of the program. -/
def wrapCaught : Statement := .assign .caught (.support .wrap [.read .caught])

/-- Puts the exception where a handler expects it. -/
def bindCaught : Statement := .assign (.stack .reference 0) (.read .caught)

/-- Passes the exception on. -/
def throwCaught : Statement := .throw (.read .caught)

/-- Tests whether the exception is an instance of one of some classes. -/
def isCaught (classes : List ClassName) : Expression :=
  .anyOf (classes.map fun name =>
    .support .isInstance [.read .caught, .classString name])

/-! ## Writing -/

/-- The lines of statements. -/
def statementLines (statements : List Statement) : List Line :=
  statements.map fun statement => .plain statement.text

/-- The line that opens a condition. -/
def conditionText (condition : Expression) : String := "if (" ++ condition.text ++ ") \x7b"

/-- The line that opens a group of cases. -/
def caseText (keys : List Int32) (isDefault : Bool) : String :=
  let labels := keys.map fun key => "case " ++ toString key.toInt ++ ":"
  String.intercalate " " (if isDefault then labels ++ ["default:"] else labels) ++ " \x7b"

mutual

/-- The lines of nested code. -/
def Skeleton.lines : Skeleton → List Line
  | .nothing => []
  | .block _ statements .rethrow => statementLines statements
  | .block _ statements recovery =>
    .opening "try \x7b" :: statementLines statements
      ++ .reopening "\x7d catch ($e) \x7b" :: .plain wrapCaught.text :: recovery.firstLines
      ++ [.closing "\x7d"]
  | .andThen first second => first.lines ++ second.lines
  | .labelled label body =>
    .opening ("B" ++ toString label ++ ": \x7b") :: body.lines ++ [.closing "\x7d"]
  | .loop label body =>
    .opening ("L" ++ toString label ++ ": while (true) \x7b") :: body.lines
      ++ [.closing "\x7d"]
  | .breakTo label => [.plain ("break B" ++ toString label ++ ";")]
  | .continueTo label => [.plain ("continue L" ++ toString label ++ ";")]
  | .dispatchTo label => [.plain ("pc = " ++ toString label ++ "; continue;")]
  | .choose condition yes no =>
    .opening (conditionText condition) :: yes.lines
      ++ .reopening "\x7d else \x7b" :: no.lines ++ [.closing "\x7d"]
  | .switch key cases =>
    .opening ("switch (" ++ key.name ++ ") \x7b") :: cases.lines ++ [.closing "\x7d"]
  | .leave (some value) => [.plain ("return " ++ value.name ++ ";")]
  | .leave none => [.plain "return;"]

/-- The lines of the cases of a switch. -/
def Cases.lines : Cases → List Line
  | .nil => []
  | .cons keys isDefault body rest =>
    .opening (caseText keys isDefault) :: body.lines ++ .closing "\x7d" :: rest.lines

/-- The lines of a recovery.  A body that runs in every case stands for itself. -/
def Recovery.firstLines : Recovery → List Line
  | .rethrow => [.plain throwCaught.text]
  | .always body => .plain bindCaught.text :: body.lines
  | .whenAny classes body otherwise =>
    .opening (conditionText (isCaught classes)) :: .plain bindCaught.text :: body.lines
      ++ otherwise.laterLines

/-- The lines of a recovery after a condition that did not hold, and the end of that
condition. -/
def Recovery.laterLines : Recovery → List Line
  | .rethrow => [.reopening "\x7d else \x7b", .plain throwCaught.text, .closing "\x7d"]
  | .always body =>
    .reopening "\x7d else \x7b" :: .plain bindCaught.text :: body.lines ++ [.closing "\x7d"]
  | .whenAny classes body otherwise =>
    .reopening ("\x7d else " ++ conditionText (isCaught classes))
      :: .plain bindCaught.text :: body.lines ++ otherwise.laterLines

end

/-- The lines of a recovery whose bodies all jump, one condition after the other.  If none holds,
execution goes on after them. -/
def Recovery.dispatchLines : Recovery → List Line
  | .rethrow => []
  | .always body => .plain bindCaught.text :: body.lines
  | .whenAny classes body otherwise =>
    .opening (conditionText (isCaught classes)) :: .plain bindCaught.text :: body.lines
      ++ .closing "\x7d" :: otherwise.dispatchLines

namespace Dispatch

/-- The lines of a block. -/
def caseLines : Nat × Skeleton → List Line
  | (label, body) =>
    .opening ("case " ++ toString label ++ ": \x7b") :: body.lines ++ [.closing "\x7d"]

/-- The lines that handle the exceptions of a block. -/
def recoveryLines : Nat × Recovery → List Line
  | (label, recovery) =>
    .opening ("if (pc === " ++ toString label ++ ") \x7b") :: recovery.dispatchLines
      ++ [.closing "\x7d"]

/-- The lines of the switch over all blocks. -/
def switchLines (dispatch : Dispatch) : List Line :=
  .opening "switch (pc) \x7b" :: dispatch.cases.flatMap caseLines ++ [.closing "\x7d"]

/-- The lines of the loop around the switch. -/
def loopLines (dispatch : Dispatch) : List Line :=
  if dispatch.recoveries.isEmpty then dispatch.switchLines
  else
    .opening "try \x7b" :: dispatch.switchLines
      ++ .reopening "\x7d catch ($e) \x7b" :: .plain wrapCaught.text
        :: dispatch.recoveries.flatMap recoveryLines
      ++ [.plain throwCaught.text, .closing "\x7d"]

/-- The lines of all blocks side by side. -/
def lines (dispatch : Dispatch) : List Line :=
  .plain ("var pc = " ++ toString dispatch.entry ++ ";") :: .opening "for (;;) \x7b"
    :: dispatch.loopLines ++ [.closing "\x7d"]

end Dispatch

/-- The lines of the code of a method. -/
def Body.lines : Body → List Line
  | .structured skeleton => skeleton.lines
  | .dispatched dispatch => dispatch.lines

end Bytescript.Script
