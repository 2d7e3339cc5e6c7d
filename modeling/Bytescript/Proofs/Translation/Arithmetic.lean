import Bytescript.Proofs.Binary.Bits
import Bytescript.Proofs.Execution.Operands
import Bytescript.Proofs.Script.Evaluation
import Bytescript.Translation.Arithmetic

/-!
# Arithmetic on ints and longs

An int is held as a number of the script and a long as a big integer.  What the expressions of
arithmetic give for them is what the machine computes.  For each operation there is one reason why
the result stays in its range: either it is wrapped, or it is an operation on bits, which cannot
leave the range.
-/

set_option autoImplicit false

namespace Bytescript.Translation

open Script

variable {Other : Type} {memory : Memory Other} {left right operand amount : Expression}

/-- A whole number of the machine as the script holds it. -/
def holding : Whole → Value Other
  | .int value => .number (.whole value.toInt)
  | .long value => .bigInteger value.toInt

/-- The value of an expression is what the script holds for a whole number. -/
def Means (memory : Memory Other) (expression : Expression) (value : Whole) : Prop :=
  expression.evaluate memory = some (holding value)

/-! ## Expressions -/

theorem evaluate_binary {operator : Operator} {first second : Value Other}
    (here : left.evaluate memory = some first) (there : right.evaluate memory = some second) :
    (Expression.binary operator left right).evaluate memory = first.operate? operator second := by
  rw [Expression.evaluate, here, there]
  rfl

theorem evaluate_negate {value : Value Other} (here : operand.evaluate memory = some value) :
    (Expression.negate operand).evaluate memory = value.negate? := by
  rw [Expression.evaluate, here]
  rfl

theorem means_intrinsic_one {function : Intrinsic} {value : Value Other}
    (here : operand.evaluate memory = some value) :
    (Expression.intrinsic function [operand]).evaluate memory = function.result? [value] := by
  rw [Expression.evaluate, Expression.evaluateAll, Expression.evaluateAll, here]
  rfl

theorem means_intrinsic_two {function : Intrinsic} {first second : Value Other}
    (here : left.evaluate memory = some first) (there : right.evaluate memory = some second) :
    (Expression.intrinsic function [left, right]).evaluate memory =
      function.result? [first, second] := by
  rw [Expression.evaluate, Expression.evaluateAll, Expression.evaluateAll, Expression.evaluateAll,
    here, there]
  rfl

theorem means_int (value : Int) : Means memory (.int value) (.int (.ofInt value)) := rfl

/-! ## Wrapping -/

theorem toWord_whole (value : Int32) : (Number.whole value.toInt).toWord = value.toBitVec :=
  BitVec.ofInt_toInt

theorem ofInt?_of_bounds {value : Int} (lower : -(2 ^ 53) ≤ value) (upper : value ≤ 2 ^ 53) :
    Number.ofInt? value = some (.whole value) :=
  if_pos (by omega)

theorem value_negate (number : Number) : number.negate.value = -number.value := by
  cases number with
  | whole value =>
    by_cases zero : value = 0
    · subst zero
      rfl
    · rw [Number.negate, if_neg zero]
      rfl
  | negativeZero => rfl

theorem add?_whole (first : Int) (second : Number) :
    (Number.whole first).add? second = Number.ofInt? (first + second.value) := by
  cases second <;> rfl

/-- A number that is wrapped to 32 bits. -/
theorem means_wrapInt {number : Number} {value : Int32}
    (here : operand.evaluate memory = some (.number number))
    (wraps : value.toInt = number.value.bmod (2 ^ 32)) :
    Means memory (wrapInt operand) (.int value) := by
  have zero : (Number.whole (Int32.ofInt 0).toInt).toWord = 0#32 := rfl
  have word : Number.ofWord (number.toWord ||| (Number.whole (Int32.ofInt 0).toInt).toWord) =
      .whole value.toInt := by
    rw [zero, BitVec.or_zero, Number.ofWord, Number.toWord, BitVec.toInt_ofInt, wraps]
  exact (evaluate_binary here (means_int 0)).trans (congrArg (some ∘ Value.number) word)

/-- A big integer that is wrapped to 64 bits. -/
theorem means_wrapLong {result : Int} {value : Int64}
    (here : operand.evaluate memory = some (.bigInteger result))
    (wraps : value.toInt = result.bmod (2 ^ 64)) :
    Means memory (wrapLong operand) (.long value) := by
  rw [Means, holding, wraps]
  exact means_intrinsic_two (means_int 64) here

/-! ## Arithmetic -/

theorem Numeric.eq_of_kind {on other : Numeric} (same : on.kind = other.kind) : on = other := by
  cases on <;> cases other <;> first | rfl | cases same

theorem Integral.eq_of_kind {on other : Integral} (same : on.kind = other.kind) : on = other := by
  cases on <;> cases other <;> first | rfl | cases same

section Int

variable {a b : Int32}

/-- A result of two ints that needs no rounding. -/
theorem evaluate_exact (first : Means memory left (.int a)) (second : Means memory right (.int b))
    {operator : Operator} {result : Int}
    (computed : Number.operate? operator (.whole a.toInt) (.whole b.toInt) = Number.ofInt? result)
    (lower : -(2 ^ 53) ≤ result) (upper : result ≤ 2 ^ 53) :
    (Expression.binary operator left right).evaluate memory = some (.number (.whole result)) := by
  rw [evaluate_binary first second, holding, holding, Value.operate?, computed,
    ofInt?_of_bounds lower upper]
  rfl

theorem means_addInt (first : Means memory left (.int a)) (second : Means memory right (.int b)) :
    Means memory (wrapInt (.binary .add left right)) (.int (a + b)) := by
  have boundsA := And.intro a.le_toInt a.toInt_lt
  have boundsB := And.intro b.le_toInt b.toInt_lt
  have sum : Number.operate? .add (.whole a.toInt) (.whole b.toInt) =
      Number.ofInt? (a.toInt + b.toInt) := add?_whole ..
  exact means_wrapInt (evaluate_exact first second sum (by omega) (by omega)) (Int32.toInt_add a b)

theorem means_subInt (first : Means memory left (.int a)) (second : Means memory right (.int b)) :
    Means memory (wrapInt (.binary .sub left right)) (.int (a - b)) := by
  have boundsA := And.intro a.le_toInt a.toInt_lt
  have boundsB := And.intro b.le_toInt b.toInt_lt
  have difference : Number.operate? .sub (.whole a.toInt) (.whole b.toInt) =
      Number.ofInt? (a.toInt - b.toInt) := by
    rw [Number.operate?, add?_whole, value_negate, ← Int.sub_eq_add_neg]
    rfl
  exact means_wrapInt (evaluate_exact first second difference (by omega) (by omega))
    (Int32.toInt_sub a b)

theorem means_mulInt (first : Means memory left (.int a)) (second : Means memory right (.int b)) :
    Means memory (.intrinsic .multiplyInt [left, right]) (.int (a * b)) := by
  refine (means_intrinsic_two first second).trans ?_
  rw [holding, holding, Intrinsic.result?, toWord_whole, toWord_whole, ← Int32.toBitVec_mul]
  rfl

theorem means_negateInt (value : Means memory operand (.int a)) :
    Means memory (wrapInt (.negate operand)) (.int (-a)) := by
  have negative : (Expression.negate operand).evaluate memory =
      some (.number (Number.whole a.toInt).negate) := evaluate_negate value
  refine means_wrapInt negative ?_
  rw [value_negate]
  exact Int32.toInt_neg a

end Int

section Long

variable {a b : Int64}

/-- A result of two longs that is wrapped. -/
theorem means_wrapped (first : Means memory left (.long a)) (second : Means memory right (.long b))
    {operator : Operator} {result : Int} {value : Int64}
    (computed : BigInteger.operate? operator a.toInt b.toInt = some result)
    (wraps : value.toInt = result.bmod (2 ^ 64)) :
    Means memory (wrapLong (.binary operator left right)) (.long value) := by
  refine means_wrapLong ((evaluate_binary first second).trans ?_) wraps
  rw [holding, holding, Value.operate?, computed]
  rfl

theorem means_negateLong (value : Means memory operand (.long a)) :
    Means memory (wrapLong (.negate operand)) (.long (-a)) :=
  means_wrapLong (evaluate_negate value) (Int64.toInt_neg a)

end Long

/-- Sums, differences and products mean what the machine computes. -/
theorem means_arithmetic {op : ArithmeticOp} {on : Numeric} {a b c : Whole}
    (same : a.kind = on.kind) (computed : a.arithmetic? op b = some c)
    (first : Means memory left a) (second : Means memory right b) :
    Means memory (arithmetic op on left right) c := by
  cases a with
  | int a =>
    obtain rfl : Numeric.int = on := Numeric.eq_of_kind same
    cases b with
    | long b => cases computed
    | int b =>
      cases op with
      | add => cases computed; exact means_addInt first second
      | sub => cases computed; exact means_subInt first second
      | mul => cases computed; exact means_mulInt first second
      | div | rem => cases computed
  | long a =>
    obtain rfl : Numeric.long = on := Numeric.eq_of_kind same
    cases b with
    | int b => cases computed
    | long b =>
      cases op with
      | add => cases computed; exact means_wrapped first second rfl (Int64.toInt_add a b)
      | sub => cases computed; exact means_wrapped first second rfl (Int64.toInt_sub a b)
      | mul => cases computed; exact means_wrapped first second rfl (Int64.toInt_mul a b)
      | div | rem => cases computed

theorem means_negation {on : Numeric} {a : Whole} (same : a.kind = on.kind)
    (value : Means memory operand a) : Means memory (negation on operand) a.negate := by
  cases a with
  | int a =>
    obtain rfl : Numeric.int = on := Numeric.eq_of_kind same
    exact means_negateInt value
  | long a =>
    obtain rfl : Numeric.long = on := Numeric.eq_of_kind same
    exact means_negateLong value

/-! ## Bits -/

theorem means_bitwise {op : BitwiseOp} {a b c : Whole} (computed : a.bitwise? op b = some c)
    (first : Means memory left a) (second : Means memory right b) :
    Means memory (bitwise op left right) c := by
  cases a with
  | int a =>
    cases b with
    | long b => cases computed
    | int b =>
      cases op <;> cases computed <;> refine (evaluate_binary first second).trans ?_ <;>
        rw [holding, holding, Value.operate?, Number.operate?, toWord_whole, toWord_whole] <;> rfl
  | long a =>
    cases b with
    | int b => cases computed
    | long b =>
      cases op with
      | and =>
        cases computed
        exact (evaluate_binary first second).trans
          (congrArg (some ∘ Value.bigInteger) toInt_and.symm)
      | or =>
        cases computed
        exact (evaluate_binary first second).trans
          (congrArg (some ∘ Value.bigInteger) toInt_or.symm)
      | xor =>
        cases computed
        exact (evaluate_binary first second).trans
          (congrArg (some ∘ Value.bigInteger) toInt_xor.symm)

/-! ## Shifts -/

theorem shiftAmount_whole (amount : Int32) :
    (Number.whole amount.toInt).shiftAmount = amount.toBitVec.toNat % 32 := by
  rw [Number.shiftAmount, toWord_whole]

theorem means_shiftedInt {op : ShiftOp} {value count : Int32}
    (first : Means memory operand (.int value)) (second : Means memory amount (.int count)) :
    Means memory (shifted op .int operand amount) (.int (.ofBitVec
      (Whole.shiftBits op value.toBitVec (count.toBitVec.toNat % 32)))) := by
  rw [← shiftAmount_whole, ← toWord_whole]
  cases op with
  | left => exact evaluate_binary first second
  | right => exact evaluate_binary first second
  | unsignedRight =>
    exact means_wrapInt (evaluate_binary first second) (BitVec.toInt_eq_toNat_bmod _)

/-- The low six bits of an int. -/
theorem evaluate_longShiftAmount {count : Int32} (value : Means memory amount (.int count)) :
    (longShiftAmount amount).evaluate memory =
      some (.bigInteger (count.toBitVec.toNat % 64 : Nat)) := by
  have masked : (Expression.binary .bitAnd amount (.int 63)).evaluate memory =
      some (.number (.ofWord (count.toBitVec &&& 63#32))) := by
    refine (evaluate_binary value (means_int 63)).trans ?_
    rw [← toWord_whole count]
    rfl
  have low : (count.toBitVec &&& 63#32).toInt = (count.toBitVec.toNat % 64 : Nat) :=
    toInt_and_ones (show 6 < 32 by decide) count.toBitVec
  rw [← low]
  exact means_intrinsic_one masked

theorem shift_of_nat (value : Int) (count : Nat) :
    BigInteger.shift value count = value * 2 ^ count := by
  rw [BigInteger.shift, if_pos (Int.natCast_nonneg count), Int.toNat_natCast]

theorem shift_of_neg (value : Int) (count : Nat) :
    BigInteger.shift value (-count) = value / 2 ^ count := by
  rw [BigInteger.shift]
  split
  next none =>
    obtain rfl : count = 0 := by omega
    simp
  next => rw [Int.neg_neg, Int.toNat_natCast]

theorem means_shiftedLong {op : ShiftOp} {value : Int64} {count : Int32}
    (first : Means memory operand (.long value)) (second : Means memory amount (.int count)) :
    Means memory (shifted op .long operand amount) (.long (.ofBitVec
      (Whole.shiftBits op value.toBitVec (count.toBitVec.toNat % 64)))) := by
  have steps := evaluate_longShiftAmount second
  generalize count.toBitVec.toNat % 64 = count at steps ⊢
  cases op with
  | left =>
    refine means_wrapLong (evaluate_binary first steps) ?_
    rw [shift_of_nat]
    exact toInt_shiftedLeft value.toBitVec count
  | right =>
    refine (evaluate_binary first steps).trans (congrArg (some ∘ Value.bigInteger) ?_)
    rw [shift_of_neg]
    exact (toInt_shiftedRight value.toBitVec count).symm
  | unsignedRight =>
    have unsigned : (Expression.intrinsic .wrapUnsigned [.int 64, operand]).evaluate memory =
        some (.bigInteger (value.toInt % 2 ^ 64)) :=
      means_intrinsic_two (means_int 64) first
    refine means_wrapLong (evaluate_binary unsigned steps) ?_
    rw [shift_of_neg]
    exact toInt_shiftedRightUnsigned value.toBitVec count

/-- Shifts mean what the machine computes. -/
theorem means_shifted {op : ShiftOp} {on : Integral} {a b c : Whole} (same : a.kind = on.kind)
    (computed : a.shift? op b = some c) (first : Means memory operand a)
    (second : Means memory amount b) : Means memory (shifted op on operand amount) c := by
  cases b with
  | long count => cases a <;> cases computed
  | int count =>
    cases a with
    | int value =>
      obtain rfl : Integral.int = on := Integral.eq_of_kind same
      cases computed
      exact means_shiftedInt first second
    | long value =>
      obtain rfl : Integral.long = on := Integral.eq_of_kind same
      cases computed
      exact means_shiftedLong first second

/-! ## Conversions -/

theorem toWord_ofWord (word : BitVec 32) : (Number.ofWord word).toWord = word :=
  BitVec.ofInt_toInt

theorem means_narrow {count : Nat} {value : Int32} (lt : count < 32)
    (first : Means memory operand (.int value)) :
    Means memory (narrow count operand)
      (.int (.ofBitVec ((value.toBitVec.setWidth (32 - count)).signExtend 32))) := by
  have amount : (Number.whole (Int32.ofInt count).toInt).shiftAmount = count := by
    rw [shiftAmount_whole, Int32.toBitVec_ofInt, BitVec.ofInt_natCast, BitVec.toNat_ofNat]
    omega
  have out : (Expression.binary .shiftLeft operand (.int count)).evaluate memory =
      some (.number (.ofWord (value.toBitVec <<< count))) := by
    refine (evaluate_binary first (means_int count)).trans ?_
    rw [holding, holding, Value.operate?, Number.operate?, amount, toWord_whole]
    rfl
  rw [← sshiftRight_shiftLeft lt]
  refine (evaluate_binary out (means_int count)).trans ?_
  rw [holding, Value.operate?, Number.operate?, amount, toWord_ofWord]
  rfl

theorem means_low16 {value : Int32} (first : Means memory operand (.int value)) :
    Means memory (low16 operand)
      (.int (.ofBitVec ((value.toBitVec.setWidth 16).setWidth 32))) := by
  rw [← and_ones]
  refine (evaluate_binary first (means_int 65535)).trans ?_
  rw [← toWord_whole value]
  rfl

theorem toInt8_toInt32 (value : Int32) :
    value.toInt8.toInt32 = .ofBitVec ((value.toBitVec.setWidth 8).signExtend 32) := by
  refine Int32.toBitVec_inj.mp ?_
  rw [Int8.toBitVec_toInt32, Int32.toBitVec_toInt8,
    BitVec.signExtend_eq_setWidth_of_le value.toBitVec (show 8 ≤ 32 by decide),
    Int32.toBitVec_ofBitVec]

theorem toInt16_toInt32 (value : Int32) :
    value.toInt16.toInt32 = .ofBitVec ((value.toBitVec.setWidth 16).signExtend 32) := by
  refine Int32.toBitVec_inj.mp ?_
  rw [Int16.toBitVec_toInt32, Int32.toBitVec_toInt16,
    BitVec.signExtend_eq_setWidth_of_le value.toBitVec (show 16 ≤ 32 by decide),
    Int32.toBitVec_ofBitVec]

theorem means_longToInt {value : Int64} (first : Means memory operand (.long value)) :
    Means memory (.intrinsic .number [.intrinsic .wrapSigned [.int 32, operand]])
      (.int value.toInt32) := by
  have wrapped : (Expression.intrinsic .wrapSigned [.int 32, operand]).evaluate memory =
      some (.bigInteger value.toInt32.toInt) := by
    rw [Int64.toInt_toInt32]
    exact means_intrinsic_two (means_int 32) first
  have bounds := And.intro value.toInt32.le_toInt value.toInt32.toInt_lt
  refine (means_intrinsic_one wrapped).trans ?_
  rw [Intrinsic.result?, ofInt?_of_bounds (by omega) (by omega)]
  rfl

/-- Conversions mean what the machine computes. -/
theorem means_converted {conversion : Conversion} {a b : Whole}
    (computed : a.convert? conversion = some b) (value : Means memory operand a) :
    Means memory (converted conversion operand) b := by
  cases conversion with
  | intToLong =>
    cases a with
    | long _ => cases computed
    | int a =>
      cases computed
      rw [Means, holding, Int32.toInt_toInt64]
      exact means_intrinsic_one value
  | longToInt =>
    cases a with
    | int _ => cases computed
    | long a =>
      cases computed
      exact means_longToInt value
  | intToByte =>
    cases a with
    | long _ => cases computed
    | int a =>
      cases computed
      rw [toInt8_toInt32]
      exact means_narrow (show 24 < 32 by decide) value
  | intToShort =>
    cases a with
    | long _ => cases computed
    | int a =>
      cases computed
      rw [toInt16_toInt32]
      exact means_narrow (show 16 < 32 by decide) value
  | intToChar =>
    cases a with
    | long _ => cases computed
    | int a =>
      cases computed
      exact means_low16 value
  | _ => cases a <;> cases computed

end Bytescript.Translation
