import Bytescript.Assembly.Stored
import Bytescript.Proofs.Binary.Taking
import Mathlib.Algebra.Group.Nat.Defs

/-!
# Words that are read back

A number that fits into its bytes is read back from them, and so is every number in two's
complement.  A counted list is read back if its items are and their count fits into two bytes.
-/

set_option autoImplicit false

namespace Bytescript.Binary

theorem length_bigEndianBytes (count number : Nat) :
    (bigEndianBytes count number).length = count := by
  induction count generalizing number with
  | zero => rfl
  | succ count ih => simp [bigEndianBytes, ih]

theorem bigEndian_append_singleton (bytes : List UInt8) (byte : UInt8) :
    bigEndian (bytes ++ [byte]) = bigEndian bytes * 0x100 + byte.toNat := by
  simp [bigEndian, List.foldl_append]

/-- The low bytes of a number spell what is left of it below a power of 256. -/
theorem bigEndian_bigEndianBytes (count number : Nat) :
    bigEndian (bigEndianBytes count number) = number % 0x100 ^ count := by
  induction count generalizing number with
  | zero => simp [bigEndianBytes, bigEndian, Nat.mod_one]
  | succ count ih =>
    have low : (UInt8.ofNat (number % 0x100)).toNat = number % 0x100 := by simp
    rw [bigEndianBytes, bigEndian_append_singleton, ih, low, Nat.pow_succ,
      Nat.mul_comm (0x100 ^ count), Nat.mod_mul]
    omega

/-- The bits of a number in two's complement are read as that number. -/
theorem twosComplement_toNat {bits : Nat} (word : BitVec (bits + 1)) :
    twosComplement (bits + 1) word.toNat = word.toInt := by
  have double : 2 ^ (bits + 1) = 2 * 2 ^ bits := Nat.pow_succ'
  rw [twosComplement, BitVec.toInt_eq_toNat_cond, Nat.pow_eq, Nat.pow_eq, Nat.add_sub_cancel]
  split <;> split <;> omega

theorem twosComplement_toUInt32 (value : Int32) :
    twosComplement 32 value.toUInt32.toNat = value.toInt :=
  twosComplement_toNat value.toBitVec

theorem twosComplement_toUInt64 (value : Int64) :
    twosComplement 64 value.toUInt64.toNat = value.toInt :=
  twosComplement_toNat value.toBitVec

namespace Reader

variable {α : Type} {number : Nat}

/-! ## Words -/

theorem takes_word_bigEndianBytes (type : WordType) (small : number < 0x100 ^ type.bytes) :
    (word type).Takes (bigEndianBytes type.bytes number) number := by
  have takes := takes_word (length_bigEndianBytes type.bytes number)
  rwa [bigEndian_bigEndianBytes, Nat.mod_eq_of_lt small] at takes

theorem takes_byte (byte : UInt8) : u8.Takes [byte] byte.toNat := by
  have takes : u8.Takes [byte] (bigEndian [byte]) := takes_word rfl
  have value : bigEndian [byte] = byte.toNat := by simp [bigEndian]
  rwa [value] at takes

/-- What is read after one byte may depend on it. -/
theorem takes_announced {next : Nat → Reader α} {byte : UInt8} {more : List UInt8} {value : α}
    (there : (next byte.toNat).Takes more value) : (u8 >>= next).Takes (byte :: more) value :=
  (takes_byte byte).bind there

theorem takes_u8 (small : number < 0x100) : u8.Takes (bigEndianBytes 1 number) number :=
  takes_word_bigEndianBytes _ small

theorem takes_u16 (small : number < 0x10000) : u16.Takes (bigEndianBytes 2 number) number :=
  takes_word_bigEndianBytes _ small

theorem takes_u32 (small : number < 0x100000000) :
    u32.Takes (bigEndianBytes 4 number) number :=
  takes_word_bigEndianBytes _ small

theorem takes_u64 (small : number < 0x10000000000000000) :
    u64.Takes (bigEndianBytes 8 number) number :=
  takes_word_bigEndianBytes _ small

theorem takes_i32 (value : Int32) : i32.Takes (bigEndianBytes 4 value.toUInt32.toNat) value := by
  have signed : (signed 4).Takes (bigEndianBytes 4 value.toUInt32.toNat) value.toInt := by
    rw [← twosComplement_toUInt32]
    exact (takes_word_bigEndianBytes ⟨4, true⟩ value.toUInt32.toNat_lt).bind_nil (takes_pure _)
  refine signed.bind_nil ?_
  rw [Int32.ofInt_toInt]
  exact takes_pure value

theorem takes_i64 (value : Int64) : i64.Takes (bigEndianBytes 8 value.toUInt64.toNat) value := by
  have signed : (signed 8).Takes (bigEndianBytes 8 value.toUInt64.toNat) value.toInt := by
    rw [← twosComplement_toUInt64]
    exact (takes_word_bigEndianBytes ⟨8, true⟩ value.toUInt64.toNat_lt).bind_nil (takes_pure _)
  refine signed.bind_nil ?_
  rw [Int64.ofInt_toInt]
  exact takes_pure value

/-- An index is read and followed. -/
theorem takes_following {β : Type} {follow : Nat → Except Failure α} {next : α → Reader β}
    {index : Nat} {value : α} {more : List UInt8} {result : β} (small : index < 0x10000)
    (found : follow index = .ok value) (there : (next value).Takes more result) :
    (u16 >>= fun index => ofExcept (follow index) >>= next).Takes
      (bigEndianBytes 2 index ++ more) result :=
  (takes_u16 small).bind ((takes_ofExcept found).bind there)

theorem takes_following_nil {β : Type} {follow : Nat → Except Failure α} {next : α → Reader β}
    {index : Nat} {value : α} {result : β} (small : index < 0x10000)
    (found : follow index = .ok value) (there : (next value).Takes [] result) :
    (u16 >>= fun index => ofExcept (follow index) >>= next).Takes
      (bigEndianBytes 2 index) result :=
  (takes_u16 small).bind_nil ((takes_ofExcept found).bind there)

theorem takes_followed {follow : Nat → Except Failure α} {index : Nat} {value : α}
    (small : index < 0x10000) (found : follow index = .ok value) :
    (u16 >>= fun index => ofExcept (follow index)).Takes (bigEndianBytes 2 index) value :=
  (takes_u16 small).bind_nil (takes_ofExcept found)

/-! ## Lists -/

theorem takes_times {item : Reader α} {parts : List (List UInt8)} {values : List α}
    (takes : List.Forall₂ item.Takes parts values) :
    (times item parts.length).Takes parts.flatten values := by
  induction takes with
  | nil => exact takes_pure []
  | cons first _ ih => exact first.bind (ih.bind_nil (takes_pure _))

/-- A list is read back after its count. -/
theorem takes_counted {item : Reader α} {parts : List (List UInt8)} {values : List α}
    (takes : List.Forall₂ item.Takes parts values) (few : parts.length < 0x10000) :
    (counted item).Takes (Assembly.counted parts) values :=
  (takes_u16 few).bind (takes_times takes)

/-- A list is read back as what its items mean. -/
theorem takes_counted_map {Stored : Type} {item : Reader α} {encode : Stored → List UInt8}
    {means : Stored → α → Prop} {items : List Stored} {values : List α}
    (few : items.length < 0x10000) (related : List.Forall₂ means items values)
    (takes : ∀ {one : Stored} {value : α}, one ∈ items → means one value →
      item.Takes (encode one) value) :
    (counted item).Takes (Assembly.counted (items.map encode)) values := by
  refine takes_counted ?_ (by rwa [List.length_map])
  rw [List.forall₂_map_left_iff]
  clear few
  induction related with
  | nil => exact .nil
  | cons here _ ih =>
    exact .cons (takes List.mem_cons_self here) (ih fun member => takes (.tail _ member))

end Reader

end Bytescript.Binary
