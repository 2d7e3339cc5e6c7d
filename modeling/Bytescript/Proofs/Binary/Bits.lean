import Mathlib.Data.Int.Bitwise

/-!
# The bits of integers

A word with a sign stands for an integer, and an integer has bits without end: those of the word,
and then its sign over and over.  So operations on the bits of integers agree with those on words,
and stay within the range of a word.
-/

set_option autoImplicit false

namespace Bytescript

/-- Integers with the same bits are the same. -/
theorem eq_of_testBit_eq {first second : Int}
    (same : ∀ place, first.testBit place = second.testBit place) : first = second := by
  -- Far up, the bits of a natural number are zeros and those of a negative one are ones.
  have differ (m n : Nat) : ¬∀ place, m.testBit place = !n.testBit place := by
    intro opposite
    have high (number : Nat) (le : number ≤ m + n) : number.testBit (m + n) = false :=
      Nat.testBit_lt_two_pow (le.trans_lt Nat.lt_two_pow_self)
    have far := opposite (m + n)
    rw [high m (Nat.le_add_right ..), high n (Nat.le_add_left ..)] at far
    cases far
  cases first with
  | ofNat m =>
    cases second with
    | ofNat n => exact congrArg Int.ofNat (Nat.eq_of_testBit_eq same)
    | negSucc n => exact absurd same (differ m n)
  | negSucc m =>
    cases second with
    | ofNat n => exact absurd (fun place => (same place).symm) (differ n m)
    | negSucc n =>
      exact congrArg Int.negSucc (Nat.eq_of_testBit_eq fun place => Bool.not_inj (same place))

variable {width : Nat} {x y : BitVec width}

/-- Beyond the bits of a word, only its sign goes on. -/
theorem testBit_toInt (x : BitVec width) (place : Nat) :
    x.toInt.testBit place = if place < width then x.getLsbD place else x.msb := by
  rw [BitVec.toInt_eq_msb_cond]
  cases sign : x.msb with
  | false =>
    rw [if_neg Bool.false_ne_true]
    refine (BitVec.testBit_toNat x).trans ?_
    split
    next => rfl
    next outside => exact BitVec.getLsbD_of_ge x place (Nat.le_of_not_lt outside)
  | true =>
    have negative : ((x.toNat : Int) - ((2 ^ width : Nat) : Int)) = Int.negSucc (~~~x).toNat := by
      have bound := x.isLt
      rw [BitVec.toNat_not, Int.negSucc_eq]
      omega
    rw [if_pos rfl, negative, Int.testBit, BitVec.testBit_toNat, BitVec.getLsbD_not]
    by_cases inside : place < width <;> simp [inside]

theorem toInt_and : (x &&& y).toInt = x.toInt.land y.toInt := by
  refine eq_of_testBit_eq fun place => ?_
  rw [Int.testBit_land, testBit_toInt, testBit_toInt, testBit_toInt]
  split
  · exact BitVec.getLsbD_and
  · exact BitVec.msb_and

theorem toInt_or : (x ||| y).toInt = x.toInt.lor y.toInt := by
  refine eq_of_testBit_eq fun place => ?_
  rw [Int.testBit_lor, testBit_toInt, testBit_toInt, testBit_toInt]
  split
  · exact BitVec.getLsbD_or
  · exact BitVec.msb_or

theorem toInt_xor : (x ^^^ y).toInt = x.toInt.xor y.toInt := by
  refine eq_of_testBit_eq fun place => ?_
  rw [Int.testBit_lxor, testBit_toInt, testBit_toInt, testBit_toInt]
  split
  · exact BitVec.getLsbD_xor
  · exact BitVec.msb_xor

/-- Shifting the upper bits out and back leaves the lower ones with their sign. -/
theorem sshiftRight_shiftLeft {count : Nat} (lt : count < width) (x : BitVec width) :
    (x <<< count).sshiftRight count = (x.setWidth (width - count)).signExtend width := by
  refine BitVec.eq_of_getLsbD_eq fun place inside => ?_
  rw [BitVec.getLsbD_sshiftRight, BitVec.getLsbD_signExtend, BitVec.getLsbD_shiftLeft,
    BitVec.msb_shiftLeft, BitVec.getMsbD_eq_getLsbD, BitVec.getLsbD_setWidth, BitVec.msb_setWidth]
  have inside' : ¬width ≤ place := Nat.not_le_of_lt inside
  by_cases low : place < width - count
  · have low' : count + place < width := by omega
    simp [low, low', inside, inside']
  · have high : ¬count + place < width := by omega
    have same : width - 1 - count = width - count - 1 := by omega
    have positive : 0 < width - count := by omega
    simp [low, high, inside, inside', lt, same, positive]

/-- Masking with ones keeps the lower bits. -/
theorem and_ones (count : Nat) (x : BitVec width) :
    x &&& BitVec.ofNat width (2 ^ count - 1) = (x.setWidth count).setWidth width := by
  refine BitVec.eq_of_getLsbD_eq fun place inside => ?_
  rw [BitVec.getLsbD_and, BitVec.getLsbD_setWidth, BitVec.getLsbD_setWidth, BitVec.getLsbD_ofNat,
    Nat.testBit_two_pow_sub_one]
  simp [inside, Bool.and_comm]

/-- Masking with ones keeps the lower bits, as a number without a sign. -/
theorem toInt_and_ones {count : Nat} (lt : count < width) (x : BitVec width) :
    (x &&& BitVec.ofNat width (2 ^ count - 1)).toInt = (x.toNat % 2 ^ count : Nat) := by
  have low : x.toNat % 2 ^ count < 2 ^ count := Nat.mod_lt _ (Nat.two_pow_pos count)
  have room : 2 * 2 ^ count ≤ 2 ^ width := by
    rw [← Nat.pow_succ']
    exact Nat.pow_le_pow_right (Nat.succ_pos 1) lt
  have bits : (x &&& BitVec.ofNat width (2 ^ count - 1)).toNat = x.toNat % 2 ^ count := by
    rw [and_ones, BitVec.toNat_setWidth, BitVec.toNat_setWidth, Nat.mod_eq_of_lt (by omega)]
  rw [BitVec.toInt_eq_toNat_of_lt (by omega), bits]

/-! ## Shifts as arithmetic -/

theorem toInt_shiftedLeft (x : BitVec width) (count : Nat) :
    (x <<< count).toInt = (x.toInt * 2 ^ count).bmod (2 ^ width) := by
  rw [BitVec.toInt_shiftLeft, BitVec.toInt_eq_toNat_bmod x, Int.bmod_mul_bmod, Nat.shiftLeft_eq]
  push_cast
  rfl

theorem toInt_shiftedRight (x : BitVec width) (count : Nat) :
    (x.sshiftRight count).toInt = x.toInt / 2 ^ count := by
  rw [BitVec.toInt_sshiftRight, Int.shiftRight_eq_div_pow]
  push_cast
  rfl

theorem toInt_shiftedRightUnsigned (x : BitVec width) (count : Nat) :
    (x >>> count).toInt = (x.toInt % 2 ^ width / 2 ^ count).bmod (2 ^ width) := by
  have unsigned : x.toInt % 2 ^ width = x.toNat := by
    have modulus : (2 : Int) ^ width = (2 ^ width : Nat) := by push_cast; rfl
    rw [BitVec.toInt_eq_toNat_bmod, modulus, Int.bmod_emod]
    exact Int.emod_eq_of_lt (Int.natCast_nonneg _) (Int.ofNat_lt.mpr x.isLt)
  rw [unsigned, BitVec.toInt_eq_toNat_bmod, BitVec.toNat_ushiftRight, Nat.shiftRight_eq_div_pow]
  push_cast
  rfl

end Bytescript
