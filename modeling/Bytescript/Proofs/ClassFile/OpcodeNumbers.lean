import Bytescript.ClassFile.Opcode
import Mathlib.Tactic.IntervalCases

/-!
# The numbers of the opcodes

What an opcode stands for, by its number.  Opcodes for several kinds of values, conditions or local
variables are numbered one after the other, so a group of them has one number to count from and one
for each way in which its members differ.
-/

set_option autoImplicit false

namespace Bytescript.Form

/-! ## Numbers in a group -/

/-- The number of a kind in groups for all kinds. -/
def kindNumber : Kind → Nat
  | .int => 0
  | .long => 1
  | .float => 2
  | .double => 3
  | .reference => 4

/-- The number of an element in groups for arrays. -/
def elementNumber : ElementKind → Nat
  | .int => 0
  | .long => 1
  | .float => 2
  | .double => 3
  | .reference => 4
  | .byte => 5
  | .char => 6
  | .short => 7

/-- The number of a kind of numbers in groups for arithmetic. -/
def numericNumber : Numeric → Nat
  | .int => 0
  | .long => 1
  | .float => 2
  | .double => 3

/-- The number of a kind of whole numbers in groups for their bits. -/
def integralNumber : Integral → Nat
  | .int => 0
  | .long => 1

/-- The number of a condition in groups of branches. -/
def conditionNumber : Comparison → Nat
  | .equal => 0
  | .notEqual => 1
  | .less => 2
  | .greaterOrEqual => 3
  | .greater => 4
  | .lessOrEqual => 5

/-- The number of a way to rearrange the stack. -/
def shuffleNumber : Shuffle → Nat
  | .dup => 0
  | .dupX1 => 1
  | .dupX2 => 2
  | .dup2 => 3
  | .dup2X1 => 4
  | .dup2X2 => 5
  | .swap => 6

/-- The number of arithmetic on two numbers, for each of which there are four opcodes. -/
def arithmeticNumber : ArithmeticOp → Nat
  | .add => 0
  | .sub => 1
  | .mul => 2
  | .div => 3
  | .rem => 4

/-- The number of a shift, for each of which there are two opcodes. -/
def shiftNumber : ShiftOp → Nat
  | .left => 0
  | .right => 1
  | .unsignedRight => 2

/-- The number of an operation on bits, for each of which there are two opcodes. -/
def bitwiseNumber : BitwiseOp → Nat
  | .and => 0
  | .or => 1
  | .xor => 2

/-- The number of a conversion. -/
def conversionNumber : Conversion → Nat
  | .intToLong => 0
  | .intToFloat => 1
  | .intToDouble => 2
  | .longToInt => 3
  | .longToFloat => 4
  | .longToDouble => 5
  | .floatToInt => 6
  | .floatToLong => 7
  | .floatToDouble => 8
  | .doubleToInt => 9
  | .doubleToLong => 10
  | .doubleToFloat => 11
  | .intToByte => 12
  | .intToChar => 13
  | .intToShort => 14

/-- The number of a comparison that gives an int. -/
def compareNumber : ThreeWay → Nat
  | .long => 0
  | .floatLess => 1
  | .floatGreater => 2
  | .doubleLess => 3
  | .doubleGreater => 4

/-! ## Opcodes -/

/-- What opcodes stand for, the ones with operands by what these are and what they make. -/
inductive HasOpcode : Form → Nat → Prop where
  | nop : HasOpcode (.plain .nop) 0x00
  | constNull : HasOpcode (.plain .constNull) 0x01
  | constInt {value : Int32} {opcode : Nat} (least : -1 ≤ value.toInt) (greatest : value.toInt ≤ 5)
    (number : opcode = (0x03 + value.toInt).toNat) : HasOpcode (.plain (.constInt value)) opcode
  | constLong {value : Nat} (small : value ≤ 1) :
    HasOpcode (.plain (.constLong value)) (0x09 + value)
  | constFloat {value : Nat} (small : value ≤ 2) :
    HasOpcode (.plain (.constFloat value)) (0x0b + value)
  | constDouble {value : Nat} (small : value ≤ 1) :
    HasOpcode (.plain (.constDouble value)) (0x0e + value)
  | byteConstant : HasOpcode .byteConstant 0x10
  | shortConstant : HasOpcode .shortConstant 0x11
  | smallPoolIndex : HasOpcode .smallPoolIndex 0x12
  | poolIndex : HasOpcode .poolIndex 0x13
  | widePoolIndex : HasOpcode .poolIndex 0x14
  | load (kind : Kind) : HasOpcode (.localVariable (.load kind)) (0x15 + kindNumber kind)
  | shortLoad (kind : Kind) {index : Nat} (small : index ≤ 3) :
    HasOpcode (.plain (.load kind index)) (0x1a + 4 * kindNumber kind + index)
  | arrayLoad (element : ElementKind) :
    HasOpcode (.plain (.arrayLoad element)) (0x2e + elementNumber element)
  | store (kind : Kind) : HasOpcode (.localVariable (.store kind)) (0x36 + kindNumber kind)
  | shortStore (kind : Kind) {index : Nat} (small : index ≤ 3) :
    HasOpcode (.plain (.store kind index)) (0x3b + 4 * kindNumber kind + index)
  | arrayStore (element : ElementKind) :
    HasOpcode (.plain (.arrayStore element)) (0x4f + elementNumber element)
  | pop : HasOpcode (.plain .pop) 0x57
  | pop2 : HasOpcode (.plain .pop2) 0x58
  | shuffle (how : Shuffle) : HasOpcode (.plain (.shuffle how)) (0x59 + shuffleNumber how)
  | arithmetic (op : ArithmeticOp) (on : Numeric) :
    HasOpcode (.plain (.arithmetic op on)) (0x60 + 4 * arithmeticNumber op + numericNumber on)
  | negate (on : Numeric) : HasOpcode (.plain (.negate on)) (0x74 + numericNumber on)
  | shift (op : ShiftOp) (on : Integral) :
    HasOpcode (.plain (.shift op on)) (0x78 + 2 * shiftNumber op + integralNumber on)
  | bitwise (op : BitwiseOp) (on : Integral) :
    HasOpcode (.plain (.bitwise op on)) (0x7e + 2 * bitwiseNumber op + integralNumber on)
  | increment : HasOpcode .increment 0x84
  | convert (conversion : Conversion) :
    HasOpcode (.plain (.convert conversion)) (0x85 + conversionNumber conversion)
  | compare (how : ThreeWay) : HasOpcode (.plain (.compare how)) (0x94 + compareNumber how)
  | ifZero (condition : Comparison) :
    HasOpcode (.branch (.ifZero condition)) (0x99 + conditionNumber condition)
  | ifCompare (condition : Comparison) :
    HasOpcode (.branch (.ifCompare condition)) (0x9f + conditionNumber condition)
  | ifSame : HasOpcode (.branch (.ifSame true)) 0xa5
  | ifOther : HasOpcode (.branch (.ifSame false)) 0xa6
  | goto : HasOpcode (.branch .goto) 0xa7
  | jumpSubroutine : HasOpcode (.branch .jumpSubroutine) 0xa8
  | returnSubroutine : HasOpcode (.localVariable .returnSubroutine) 0xa9
  | tableSwitch : HasOpcode .tableSwitch 0xaa
  | lookupSwitch : HasOpcode .lookupSwitch 0xab
  | leaveWith (kind : Kind) : HasOpcode (.plain (.leave (some kind))) (0xac + kindNumber kind)
  | leave : HasOpcode (.plain (.leave none)) 0xb1
  | getStatic : HasOpcode (.field .getStatic) 0xb2
  | putStatic : HasOpcode (.field .putStatic) 0xb3
  | getField : HasOpcode (.field .getField) 0xb4
  | putField : HasOpcode (.field .putField) 0xb5
  | invokeVirtual : HasOpcode (.method fun method _ => .invokeVirtual method) 0xb6
  | invokeSpecial : HasOpcode (.method .invokeSpecial) 0xb7
  | invokeStatic : HasOpcode (.method .invokeStatic) 0xb8
  | invokeInterface : HasOpcode .interfaceMethod 0xb9
  | invokeDynamic : HasOpcode .dynamicCall 0xba
  | new : HasOpcode (.classOperand .new) 0xbb
  | newArray : HasOpcode .primitiveArray 0xbc
  | newReferenceArray : HasOpcode (.classOperand .newReferenceArray) 0xbd
  | arrayLength : HasOpcode (.plain .arrayLength) 0xbe
  | throw : HasOpcode (.plain .throw) 0xbf
  | checkCast : HasOpcode (.classOperand .checkCast) 0xc0
  | instanceOf : HasOpcode (.classOperand .instanceOf) 0xc1
  | monitorEnter : HasOpcode (.plain .monitorEnter) 0xc2
  | monitorExit : HasOpcode (.plain .monitorExit) 0xc3
  | wide : HasOpcode .wide 0xc4
  | newMultiArray : HasOpcode .multiArray 0xc5
  | ifNull : HasOpcode (.branch (.ifNull true)) 0xc6
  | ifNotNull : HasOpcode (.branch (.ifNull false)) 0xc7
  | wideGoto : HasOpcode (.wideBranch .goto) 0xc8
  | wideJumpSubroutine : HasOpcode (.wideBranch .jumpSubroutine) 0xc9

variable {form : Form} {opcode : Nat}

/-- The constants that are part of an opcode. -/
theorem ofOpcode?_constInt {value : Int32} (least : -1 ≤ value.toInt)
    (greatest : value.toInt ≤ 5) :
    ofOpcode? (0x03 + value.toInt).toNat = some (.plain (.constInt value)) := by
  have same : value = .ofInt value.toInt := (Int32.ofInt_toInt value).symm
  generalize value.toInt = number at *
  subst same
  interval_cases number <;> rfl

theorem HasOpcode.ofOpcode? (has : form.HasOpcode opcode) : ofOpcode? opcode = some form := by
  cases has with
  | constInt least greatest number => exact number ▸ ofOpcode?_constInt least greatest
  | @constLong value small | @constFloat value small | @constDouble value small =>
    interval_cases value <;> rfl
  | @shortLoad kind index small | @shortStore kind index small =>
    cases kind <;> interval_cases index <;> rfl
  | load kind | store kind | leaveWith kind => cases kind <;> rfl
  | arrayLoad element | arrayStore element => cases element <;> rfl
  | shuffle how | compare how => cases how <;> rfl
  | arithmetic op on | shift op on | bitwise op on => cases op <;> cases on <;> rfl
  | negate on => cases on <;> rfl
  | convert conversion => cases conversion <;> rfl
  | ifZero condition | ifCompare condition => cases condition <;> rfl
  | _ => rfl

/-- The list of forms has them at their numbers. -/
theorem hasOpcode_iff : form.HasOpcode opcode ↔ Form.ofOpcode? opcode = some form := by
  refine ⟨HasOpcode.ofOpcode?, fun found => ?_⟩
  have small : opcode < 202 := (List.getElem?_eq_some_iff.mp found).1
  interval_cases opcode <;> cases found <;> constructor <;> decide

end Bytescript.Form
