import Bytescript.ClassFile.Instruction
import Bytescript.Script.Literal
import Bytescript.Script.Name
import Bytescript.Support.Function

/-!
# Expressions of the script

The values of the operand stack and the local variables of a method live in variables of the
script.  Expressions are built from these variables, constants, operators, a few functions that
the script has from the start, the functions of the support library, and the fields and methods
of the classes of the program.

Classes, methods and fields appear as what they are and only get their names in the script when
an expression is written.  An operand that is an operation itself is always written in
parentheses, so operators need no precedences.
-/

set_option autoImplicit false

namespace Bytescript.Script

/-- A variable of a translated method. -/
inductive Variable where
  /-- A local variable of the method, by its index. -/
  | slot (index : Nat)
  /-- The value of a kind at a depth of the stack, counted from the bottom. -/
  | stack (kind : Kind) (depth : Nat)
  /-- A value that is put aside while the stack is rearranged. -/
  | temporary (number : Nat)
  /-- The exception that a handler examines. -/
  | caught
  deriving DecidableEq

/-- The letter of a kind in the name of a stack variable. -/
def kindLetter : Kind → Char
  | .int => 'i'
  | .long => 'l'
  | .float => 'f'
  | .double => 'd'
  | .reference => 'a'

/-- The name of a variable. -/
def Variable.name : Variable → String
  | slot index => "lc" ++ toString index
  | stack kind depth => "s" ++ String.singleton (kindLetter kind) ++ toString depth
  | temporary number => "$t" ++ toString number
  | caught => "$e"

/-- Whether a variable is a local variable of the method. -/
def Variable.isSlot : Variable → Bool
  | slot _ => true
  | stack _ _ | temporary _ | caught => false

/-- Operators between two operands. -/
inductive Operator where
  | add | sub | mul | div | rem
  | shiftLeft | shiftRight | shiftRightUnsigned
  | bitAnd | bitOr | bitXor
  | equal | notEqual | less | greaterOrEqual | greater | lessOrEqual
  | same | notSame
  deriving DecidableEq

/-- The symbol of an operator. -/
def Operator.symbol : Operator → String
  | add => "+"
  | sub => "-"
  | mul => "*"
  | div => "/"
  | rem => "%"
  | shiftLeft => "<<"
  | shiftRight => ">>"
  | shiftRightUnsigned => ">>>"
  | bitAnd => "&"
  | bitOr => "|"
  | bitXor => "^"
  | equal => "=="
  | notEqual => "!="
  | less => "<"
  | greaterOrEqual => ">="
  | greater => ">"
  | lessOrEqual => "<="
  | same => "==="
  | notSame => "!=="

/-- Functions that the script has from the start. -/
inductive Intrinsic where
  /-- Multiplies within 32 bits. -/
  | multiplyInt
  /-- Rounds to 32 bit floating point. -/
  | roundFloat
  /-- Makes a big integer of a number. -/
  | bigInteger
  /-- Makes a number of a big integer. -/
  | number
  /-- Wraps a big integer to a count of bits with a sign. -/
  | wrapSigned
  /-- Wraps a big integer to a count of bits without a sign. -/
  | wrapUnsigned
  deriving DecidableEq

/-- The name of a function that the script has from the start. -/
def Intrinsic.name : Intrinsic → String
  | multiplyInt => "Math.imul"
  | roundFloat => "Math.fround"
  | bigInteger => "BigInt"
  | number => "Number"
  | wrapSigned => "BigInt.asIntN"
  | wrapUnsigned => "BigInt.asUintN"

/-- An expression. -/
inductive Expression where
  | read (source : Variable)
  | null
  | constant (value : Constant)
  | negate (operand : Expression)
  | binary (operator : Operator) (left right : Expression)
  | conditional (test yes no : Expression)
  /-- Whether one of several tests holds. -/
  | anyOf (tests : List Expression)
  | array (items : List Expression)
  | intrinsic (function : Intrinsic) (arguments : List Expression)
  | support (function : Support.Function) (arguments : List Expression)
  | new (type : ClassName)
  | staticField (owner : ClassName) (field : String)
  | property (object : Expression) (name : String)
  | staticCall (owner : ClassName) (method : String) (type : MethodType)
      (arguments : List Expression)
  | methodCall (receiver : Expression) (method : String) (type : MethodType)
      (arguments : List Expression)
  /-- Calls the method as a given class has it, whatever the class of the receiver. -/
  | exactCall (owner : ClassName) (method : String) (type : MethodType)
      (arguments : List Expression)

namespace Expression

/-- A whole number. -/
def int (value : Int) : Expression := constant (.integer (Int32.ofInt value))

/-- A string that holds a text. -/
def string (text : String) : Expression := constant (.string (JavaString.ofString text))

/-- The name of a class as a string. -/
def classString (name : ClassName) : Expression := string name.text

/-- The expressions that need parentheses as operands. -/
def isOperation : Expression → Bool
  | negate _ | binary _ _ _ | conditional _ _ _ | anyOf _ => true
  | _ => false

/-! ## Writing -/

/-- Arguments in parentheses. -/
def parenthesized (arguments : List String) : String :=
  "(" ++ String.intercalate ", " arguments ++ ")"

/-- Puts an operand into parentheses if it needs them. -/
def asOperand (expression : Expression) (text : String) : String :=
  if expression.isOperation then "(" ++ text ++ ")" else text

mutual

/-- The text of an expression. -/
def text : Expression → String
  | read source => source.name
  | null => "null"
  | constant value => constantLiteral value
  | negate operand => "-" ++ operand.asOperand operand.text
  | binary operator left right =>
    left.asOperand left.text ++ " " ++ operator.symbol ++ " " ++ right.asOperand right.text
  | conditional test yes no =>
    test.asOperand test.text ++ " ? " ++ yes.asOperand yes.text ++ " : "
      ++ no.asOperand no.text
  | anyOf tests => String.intercalate " || " (texts tests)
  | array items => "[" ++ String.intercalate ", " (texts items) ++ "]"
  | intrinsic function arguments => function.name ++ parenthesized (texts arguments)
  | support function arguments => function.path ++ parenthesized (texts arguments)
  | new type => "new " ++ classIdentifier type ++ "()"
  | staticField owner field => classIdentifier owner ++ "." ++ fieldIdentifier field
  | property object name => object.asOperand object.text ++ "." ++ name
  | staticCall owner method type arguments =>
    staticFunction owner method type ++ parenthesized (texts arguments)
  | methodCall receiver method type arguments =>
    receiver.asOperand receiver.text ++ "." ++ methodProperty method type
      ++ parenthesized (texts arguments)
  | exactCall owner method type arguments =>
    classIdentifier owner ++ ".prototype." ++ methodProperty method type ++ ".call"
      ++ parenthesized (texts arguments)

/-- The texts of several expressions. -/
def texts : List Expression → List String
  | [] => []
  | first :: rest => first.text :: texts rest

end

/-! ## Variables -/

mutual

/-- The variables that an expression reads. -/
def usedVariables : Expression → List Variable
  | read source => [source]
  | null | constant _ | new _ | staticField _ _ => []
  | negate operand => operand.usedVariables
  | binary _ left right => left.usedVariables ++ right.usedVariables
  | conditional test yes no => test.usedVariables ++ yes.usedVariables ++ no.usedVariables
  | property object _ => object.usedVariables
  | anyOf items | array items | intrinsic _ items | support _ items
  | staticCall _ _ _ items | exactCall _ _ _ items => allUsedVariables items
  | methodCall receiver _ _ items => receiver.usedVariables ++ allUsedVariables items

/-- The variables that several expressions read. -/
def allUsedVariables : List Expression → List Variable
  | [] => []
  | first :: rest => first.usedVariables ++ allUsedVariables rest

end

end Expression

end Bytescript.Script
