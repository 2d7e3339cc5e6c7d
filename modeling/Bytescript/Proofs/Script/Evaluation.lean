import Bytescript.Script.Statement
import Mathlib.Data.Int.Bitwise

/-!
# What statements do to variables

The part of the meaning of the script that whole numbers need.  A number is a 64 bit floating
point number, so whole numbers are exact up to 53 bits, and there are two zeros; a big integer is
an integer.  Operators on bits see the low 32 bits of a number, and all bits of a big integer,
whose sign goes on without end.

The meaning is partial: a result that may have been rounded, an operation that throws, and all
expressions that have nothing to do with whole numbers are left without one.
-/

set_option autoImplicit false

namespace Bytescript.Script

/-! ## Numbers -/

/-- A number that is whole. -/
inductive Number where
  | whole (value : Int)
  | negativeZero
  deriving DecidableEq

namespace Number

/-- The integer that a number stands for. -/
def value : Number → Int
  | whole value => value
  | negativeZero => 0

/-- An integer as a number, unless it may have to be rounded. -/
def ofInt? (value : Int) : Option Number :=
  if value.natAbs ≤ 2 ^ 53 then some (whole value) else none

/-- The low 32 bits of a number. -/
def toWord (number : Number) : BitVec 32 := BitVec.ofInt 32 number.value

/-- What 32 bits with a sign stand for. -/
def ofWord (word : BitVec 32) : Number := whole word.toInt

/-- How far a number shifts another one: only its low five bits count. -/
def shiftAmount (number : Number) : Nat := number.toWord.toNat % 32

/-- The negative of a number. -/
def negate : Number → Number
  | whole value => if value = 0 then negativeZero else whole (-value)
  | negativeZero => whole 0

/-- The sum of two numbers. -/
def add? : Number → Number → Option Number
  | negativeZero, negativeZero => some negativeZero
  | first, second => ofInt? (first.value + second.value)

/-- An operator between two numbers. -/
def operate? : Operator → Number → Number → Option Number
  | .add, left, right => left.add? right
  | .sub, left, right => left.add? right.negate
  | .bitAnd, left, right => some (ofWord (left.toWord &&& right.toWord))
  | .bitOr, left, right => some (ofWord (left.toWord ||| right.toWord))
  | .bitXor, left, right => some (ofWord (left.toWord ^^^ right.toWord))
  | .shiftLeft, left, right => some (ofWord (left.toWord <<< right.shiftAmount))
  | .shiftRight, left, right => some (ofWord (left.toWord.sshiftRight right.shiftAmount))
  | .shiftRightUnsigned, left, right => some (whole (left.toWord >>> right.shiftAmount).toNat)
  | _, _, _ => none

end Number

/-! ## Big integers -/

namespace BigInteger

/-- A big integer shifted to the left.  A negative amount shifts to the right. -/
def shift (value amount : Int) : Int :=
  if 0 ≤ amount then value * 2 ^ amount.toNat else value / 2 ^ (-amount).toNat

/-- An operator between two big integers. -/
def operate? : Operator → Int → Int → Option Int
  | .add, left, right => some (left + right)
  | .sub, left, right => some (left - right)
  | .mul, left, right => some (left * right)
  | .bitAnd, left, right => some (left.land right)
  | .bitOr, left, right => some (left.lor right)
  | .bitXor, left, right => some (left.xor right)
  | .shiftLeft, left, right => some (shift left right)
  | .shiftRight, left, right => some (shift left (-right))
  | _, _, _ => none

/-- A big integer wrapped to a count of bits with a sign. -/
def wrapSigned (bits : Nat) (value : Int) : Int := value.bmod (2 ^ bits)

/-- A big integer wrapped to a count of bits without a sign. -/
def wrapUnsigned (bits : Nat) (value : Int) : Int := value % 2 ^ bits

end BigInteger

/-! ## Values -/

/-- A value of a variable.  Nothing is known of values that are neither whole numbers nor big
integers. -/
inductive Value (Other : Type) where
  | number (value : Number)
  | bigInteger (value : Int)
  | other (value : Other)

variable {Other : Type}

/-- An operator between two values, which must be of the same sort. -/
def Value.operate? (operator : Operator) : Value Other → Value Other → Option (Value Other)
  | number left, number right => (Number.operate? operator left right).map number
  | bigInteger left, bigInteger right => (BigInteger.operate? operator left right).map bigInteger
  | _, _ => none

/-- The negative of a value. -/
def Value.negate? : Value Other → Option (Value Other)
  | number value => some (number value.negate)
  | bigInteger value => some (bigInteger (-value))
  | other _ => none

/-- A count of bits. -/
def Number.bitCount? (number : Number) : Option Nat :=
  if 0 ≤ number.value then some number.value.toNat else none

/-- What a function gives that the script has from the start. -/
def Intrinsic.result? : Intrinsic → List (Value Other) → Option (Value Other)
  | multiplyInt, [.number left, .number right] =>
    some (.number (.ofWord (left.toWord * right.toWord)))
  | bigInteger, [.number value] => some (.bigInteger value.value)
  | number, [.bigInteger value] => (Number.ofInt? value).map .number
  | wrapSigned, [.number bits, .bigInteger value] =>
    bits.bitCount?.map fun count => .bigInteger (BigInteger.wrapSigned count value)
  | wrapUnsigned, [.number bits, .bigInteger value] =>
    bits.bitCount?.map fun count => .bigInteger (BigInteger.wrapUnsigned count value)
  | _, _ => none

/-! ## Expressions -/

/-- The values of all variables. -/
abbrev Memory (Other : Type) : Type := Variable → Value Other

namespace Expression

mutual

/-- The value of an expression. -/
def evaluate (memory : Memory Other) : Expression → Option (Value Other)
  | read source => some (memory source)
  | constant (.integer value) => some (.number (.whole value.toInt))
  | constant (.long value) => some (.bigInteger value.toInt)
  | negate operand => (operand.evaluate memory).bind Value.negate?
  | binary operator left right =>
    (left.evaluate memory).bind fun first =>
      (right.evaluate memory).bind (first.operate? operator)
  | intrinsic function arguments => (evaluateAll memory arguments).bind function.result?
  | _ => none

/-- The values of several expressions. -/
def evaluateAll (memory : Memory Other) : List Expression → Option (List (Value Other))
  | [] => some []
  | first :: rest =>
    (first.evaluate memory).bind fun value =>
      (evaluateAll memory rest).map (value :: ·)

end

end Expression

/-! ## Statements -/

namespace Statement

/-- What is in the variables after a statement. -/
def execute (memory : Memory Other) : Statement → Option (Memory Other)
  | assign target value => (value.evaluate memory).map (Function.update memory target)
  | store _ _ | evaluate _ | throw _ => none

/-- What is in the variables after several statements. -/
def executeAll (memory : Memory Other) (statements : List Statement) : Option (Memory Other) :=
  statements.foldlM execute memory

variable {memory memory' : Memory Other}

theorem executeAll_append {first second : List Statement}
    (ran : executeAll memory first = some memory') :
    executeAll memory (first ++ second) = executeAll memory' second := by
  rw [executeAll, List.foldlM_append]
  exact congrArg (Option.bind · _) ran

theorem executeAll_assign {target : Variable} {value : Expression} {result : Value Other}
    (evaluated : value.evaluate memory = some result) (rest : List Statement) :
    executeAll memory (assign target value :: rest) =
      executeAll (Function.update memory target result) rest := by
  rw [executeAll, List.foldlM_cons, execute, evaluated]
  rfl

end Statement

end Bytescript.Script
