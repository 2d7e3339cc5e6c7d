import Bytescript.Script.Expression

/-!
# Statements of the script

What a straight run of instructions becomes: a list of statements that assign variables and
fields, or that only evaluate an expression for its effect.
-/

set_option autoImplicit false

namespace Bytescript.Script

/-- A statement without control flow, apart from exceptions. -/
inductive Statement where
  | assign (target : Variable) (value : Expression)
  /-- Stores a value in a field, which is given by the expression that reads it. -/
  | store (place value : Expression)
  | evaluate (expression : Expression)
  | throw (exception : Expression)

namespace Statement

/-- The text of a statement. -/
def text : Statement → String
  | assign target value => target.name ++ " = " ++ value.text ++ ";"
  | store place value => place.text ++ " = " ++ value.text ++ ";"
  | evaluate expression => expression.text ++ ";"
  | throw exception => "throw " ++ exception.text ++ ";"

/-- The variables that a statement reads or assigns. -/
def usedVariables : Statement → List Variable
  | assign target value => target :: value.usedVariables
  | store place value => place.usedVariables ++ value.usedVariables
  | evaluate expression => expression.usedVariables
  | throw exception => exception.usedVariables

/-- The variable that a statement assigns, if it assigns one. -/
def assigned : Statement → Option Variable
  | assign target _ => some target
  | store _ _ | evaluate _ | throw _ => none

/-- The variables that a statement makes known to its method: the one that it assigns, and the
local variables of the method that it uses.  All others hold values that were put there before. -/
def introduced (statement : Statement) : List Variable :=
  statement.assigned.toList ++ statement.usedVariables.filter Variable.isSlot

end Statement

/-- How a block is left, exceptions apart.  The targets are offsets into the bytecode. -/
inductive Exit where
  | goto (target : Nat)
  | branch (condition : Expression) (target otherwise : Nat)
  | switch (key : Variable) (cases : List (Int32 × Nat)) (default : Nat)
  | leave (value : Option Variable)
  /-- The last statement throws, so the end of the block is never reached. -/
  | throw

namespace Exit

/-- The offsets at which execution may go on. -/
def targets : Exit → List Nat
  | goto target => [target]
  | branch _ target otherwise => [target, otherwise]
  | switch _ cases default => cases.map Prod.snd ++ [default]
  | leave _ | throw => []

end Exit

/-- The code of a block: what it does, and how it is left. -/
structure BlockCode where
  statements : List Statement
  exit : Exit

/-- The variables that the code of a block makes known to its method. -/
def BlockCode.introduced (code : BlockCode) : List Variable :=
  code.statements.flatMap Statement.introduced

end Bytescript.Script
