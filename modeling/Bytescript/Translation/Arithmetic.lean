import Bytescript.Script.Expression

/-!
# Arithmetic in the script

Numbers of the script are 64 bit floating point numbers, or big integers without a limit.  An int
is a number that the operators on bits keep within 32 bits, and a long is a big integer that is
wrapped to 64 bits after every operation that may leave that range.  A float is a number that is
rounded after every operation.
-/

set_option autoImplicit false

namespace Bytescript.Translation

open Script

/-- Wraps a number to 32 bits with a sign. -/
def wrapInt (value : Expression) : Expression := .binary .bitOr value (.int 0)

/-- Wraps a big integer to 64 bits with a sign. -/
def wrapLong (value : Expression) : Expression := .intrinsic .wrapSigned [.int 64, value]

/-- Rounds a number to a float. -/
def roundFloat (value : Expression) : Expression := .intrinsic .roundFloat [value]

/-- The operator of an operation on numbers. -/
def arithmeticOperator : ArithmeticOp → Operator
  | .add => .add
  | .sub => .sub
  | .mul => .mul
  | .div => .div
  | .rem => .rem

/-- Arithmetic on two numbers.  Dividing whole numbers may throw, which is left to functions. -/
def arithmetic (op : ArithmeticOp) (on : Numeric) (left right : Expression) : Expression :=
  let plain := Expression.binary (arithmeticOperator op) left right
  match on, op with
  | .int, .mul => .intrinsic .multiplyInt [left, right]
  | .int, .div => .support .intDiv [left, right]
  | .int, .rem => .support .intRem [left, right]
  | .int, _ => wrapInt plain
  | .long, .div => .support .longDiv [left, right]
  | .long, .rem => .support .longRem [left, right]
  | .long, _ => wrapLong plain
  | .float, _ => roundFloat plain
  | .double, _ => plain

/-- The negative of a number. -/
def negation (on : Numeric) (operand : Expression) : Expression :=
  match on with
  | .int => wrapInt (.negate operand)
  | .long => wrapLong (.negate operand)
  | .float | .double => .negate operand

/-- How far a long is shifted: the low six bits of an int, as a big integer. -/
def longShiftAmount (amount : Expression) : Expression :=
  .intrinsic .bigInteger [.binary .bitAnd amount (.int 63)]

/-- A whole number shifted by an int. -/
def shifted (op : ShiftOp) (on : Integral) (value amount : Expression) : Expression :=
  match on, op with
  | .int, .left => .binary .shiftLeft value amount
  | .int, .right => .binary .shiftRight value amount
  | .int, .unsignedRight => wrapInt (.binary .shiftRightUnsigned value amount)
  | .long, .left => wrapLong (.binary .shiftLeft value (longShiftAmount amount))
  | .long, .right => .binary .shiftRight value (longShiftAmount amount)
  | .long, .unsignedRight =>
    wrapLong
      (.binary .shiftRight (.intrinsic .wrapUnsigned [.int 64, value]) (longShiftAmount amount))

/-- An operation on the bits of two whole numbers, which stays in their range. -/
def bitwise (op : BitwiseOp) (left right : Expression) : Expression :=
  match op with
  | .and => .binary .bitAnd left right
  | .or => .binary .bitOr left right
  | .xor => .binary .bitXor left right

/-- The low bits of an int, as an unsigned number of 16 bits. -/
def low16 (value : Expression) : Expression := .binary .bitAnd value (.int 65535)

/-- An int wrapped to fewer bits with a sign, by shifting the other bits out and back. -/
def narrow (shift : Int) (value : Expression) : Expression :=
  .binary .shiftRight (.binary .shiftLeft value (.int shift)) (.int shift)

/-- The kinds that a conversion leads from and to. -/
def conversionKinds : Conversion → Kind × Kind
  | .intToLong => (.int, .long)
  | .intToFloat => (.int, .float)
  | .intToDouble => (.int, .double)
  | .longToInt => (.long, .int)
  | .longToFloat => (.long, .float)
  | .longToDouble => (.long, .double)
  | .floatToInt => (.float, .int)
  | .floatToLong => (.float, .long)
  | .floatToDouble => (.float, .double)
  | .doubleToInt => (.double, .int)
  | .doubleToLong => (.double, .long)
  | .doubleToFloat => (.double, .float)
  | .intToByte | .intToChar | .intToShort => (.int, .int)

/-- A number converted to another kind, or to a narrower range. -/
def converted (conversion : Conversion) (value : Expression) : Expression :=
  match conversion with
  | .intToLong => .intrinsic .bigInteger [value]
  | .intToFloat | .doubleToFloat => roundFloat value
  | .intToDouble | .floatToDouble => value
  | .longToInt => .intrinsic .number [.intrinsic .wrapSigned [.int 32, value]]
  | .longToFloat => roundFloat (.intrinsic .number [value])
  | .longToDouble => .intrinsic .number [value]
  | .floatToInt | .doubleToInt => .support .toInt [value]
  | .floatToLong | .doubleToLong => .support .toLong [value]
  | .intToByte => narrow 24 value
  | .intToChar => low16 value
  | .intToShort => narrow 16 value

/-- The kind of numbers that a comparison takes. -/
def comparedKind : ThreeWay → Kind
  | .long => .long
  | .floatLess | .floatGreater => .float
  | .doubleLess | .doubleGreater => .double

/-- The function that compares two numbers. -/
def comparisonFunction : ThreeWay → Support.Function
  | .long => .compare
  | .floatLess | .doubleLess => .compareLess
  | .floatGreater | .doubleGreater => .compareGreater

/-- The operator of a condition between ints. -/
def conditionOperator : Comparison → Operator
  | .equal => .equal
  | .notEqual => .notEqual
  | .less => .less
  | .greaterOrEqual => .greaterOrEqual
  | .greater => .greater
  | .lessOrEqual => .lessOrEqual

end Bytescript.Translation
