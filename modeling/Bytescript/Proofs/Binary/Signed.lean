import Bytescript.Proofs.Binary.Word

/-!
# Signed words that are read back

A signed number is written as a word in two's complement.  It is read back if it fits into the bits
of the word, and each word stands for a signed number of its width.
-/

set_option autoImplicit false

namespace Bytescript.Binary

namespace Reader

variable {bytes : List UInt8}

theorem takes_signed {count : Nat} (length : bytes.length = count) :
    (signed count).Takes bytes (twosComplement (8 * count) (bigEndian bytes)) :=
  (takes_word length).bind_nil (takes_pure _)

theorem takes_signedByte (byte : UInt8) : (signed 1).Takes [byte] byte.toInt8.toInt := by
  have takes : (signed 1).Takes [byte] (twosComplement 8 (bigEndian [byte])) := takes_signed rfl
  have spelled : bigEndian [byte] = byte.toBitVec.toNat := by simp [bigEndian]
  rwa [spelled, twosComplement_toNat] at takes

theorem takes_signedShort (word : UInt16) :
    (signed 2).Takes (bigEndianBytes 2 word.toNat) word.toInt16.toInt := by
  have takes : (signed 2).Takes _ (twosComplement 16 _) :=
    takes_signed (length_bigEndianBytes 2 word.toNat)
  have spelled : bigEndian (bigEndianBytes 2 word.toNat) = word.toBitVec.toNat := by
    rw [bigEndian_bigEndianBytes]
    exact Nat.mod_eq_of_lt word.toNat_lt
  rwa [spelled, twosComplement_toNat] at takes

end Reader

/-- A number with few enough bits is read back from its word. -/
theorem twosComplement_wordOfInt {bits : Nat} {number : Int} (low : -(2 ^ bits : Nat) ≤ number)
    (high : number < (2 ^ bits : Nat)) :
    twosComplement (bits + 1) (wordOfInt (bits + 1) number) = number := by
  have double : 2 ^ (bits + 1) = 2 * 2 ^ bits := Nat.pow_succ'
  rw [twosComplement, wordOfInt, Nat.pow_eq, Nat.pow_eq, Nat.add_sub_cancel, double]
  generalize 2 ^ bits = half at low high
  by_cases negative : number < 0
  · have residue : number % ((2 * half : Nat) : Int) = number + (2 * half : Nat) := by
      rw [← Int.add_emod_right, Int.emod_eq_of_lt (by omega) (by omega)]
    rw [residue, if_neg (by omega)]
    omega
  · have residue : number % ((2 * half : Nat) : Int) = number :=
      Int.emod_eq_of_lt (by omega) (by omega)
    rw [residue, if_pos (by omega)]
    omega

theorem wordOfInt_lt (bits : Nat) (number : Int) : wordOfInt bits number < 2 ^ bits := by
  have positive : 0 < 2 ^ bits := Nat.two_pow_pos bits
  rw [wordOfInt, Nat.pow_eq]
  generalize 2 ^ bits = size at positive ⊢
  have least := Int.emod_nonneg number (show (size : Int) ≠ 0 by omega)
  have bound := Int.emod_lt_of_pos number (show (0 : Int) < size by omega)
  omega

/-- A signed number is read back from its bytes. -/
theorem Reader.takes_signed_wordOfInt {count : Nat} {number : Int} (positive : 0 < count)
    (low : -(2 ^ (8 * count - 1) : Nat) ≤ number) (high : number < (2 ^ (8 * count - 1) : Nat)) :
    (signed count).Takes (bigEndianBytes count (wordOfInt (8 * count) number)) number := by
  have takes := Reader.takes_signed (length_bigEndianBytes count (wordOfInt (8 * count) number))
  have power : (0x100 : Nat) ^ count = 2 ^ (8 * count) := by rw [Nat.pow_mul]
  have bits : 8 * count = 8 * count - 1 + 1 := by omega
  rw [bigEndian_bigEndianBytes, power, Nat.mod_eq_of_lt (wordOfInt_lt _ _), bits,
    twosComplement_wordOfInt low high, ← bits] at takes
  exact takes

end Bytescript.Binary
