/-!
# Lines and their indentation

The script is written line by line, indented by tabs.  A line says what it does to the
indentation: it may begin a nested part, end one, or end one and begin the next.  The depth is
worked out when the lines are written, so a piece of script does not depend on how deep it will
stand.
-/

set_option autoImplicit false

namespace Bytescript.Script

/-- A line of the script. -/
inductive Line where
  | plain (text : String)
  /-- Everything after the line is indented. -/
  | opening (text : String)
  /-- The line and everything after it is no longer indented. -/
  | closing (text : String)
  /-- Only the line itself is no longer indented. -/
  | reopening (text : String)
  deriving DecidableEq

namespace Line

/-- The text of a line without its indentation. -/
def text : Line → String
  | plain text | opening text | closing text | reopening text => text

/-- How deep a line itself stands after lines that lead to a depth. -/
def depthAt (depth : Nat) : Line → Nat
  | plain _ | opening _ => depth
  | closing _ | reopening _ => depth - 1

/-- How deep the next line stands. -/
def depthAfter (depth : Nat) : Line → Nat
  | plain _ => depth
  | opening _ => depth + 1
  | closing _ => depth - 1
  | reopening _ => depth - 1 + 1

/-- A text with tabs in front. -/
def indent (depth : Nat) (text : String) : String :=
  String.ofList (List.replicate depth '\t') ++ text

/-- Indents lines, beginning at a depth. -/
def indentAll : (depth : Nat) → List Line → List String
  | _, [] => []
  | depth, line :: rest =>
    indent (line.depthAt depth) line.text :: indentAll (line.depthAfter depth) rest

end Line

/-- The text of finished lines. -/
def unlines (lines : List String) : String :=
  String.join (lines.map fun line => line ++ "\n")

end Bytescript.Script
