import Bytescript.Proofs.ClassFile.Extents
import Mathlib.Data.List.Nodup

/-!
# Switches in the bytes of a method

A switch lies in the code of a method as an opcode, padding up to a multiple of four, and words of
four bytes.  These words say which keys the switch lists and how far it leads for each value.  What
is decoded of a switch says the same: its keys and its targets are those of the words.
-/

set_option autoImplicit false

namespace Bytescript

open Binary

/-! ## Reading at a place -/

namespace Binary

/-- The cursor at a place of some data. -/
def Cursor.at (data : List UInt8) (place : Nat) : Cursor := ⟨place, data.drop place⟩

/-- The signed number in the four bytes at a place of some data. -/
def wordAt (data : List UInt8) (place : Nat) : Int :=
  twosComplement 32 (bigEndian ((data.drop place).take 4))

theorem toInt_ofInt_wordAt (data : List UInt8) (place : Nat) :
    (Int32.ofInt (wordAt data place)).toInt = wordAt data place := by
  have small := bigEndian_lt ((data.drop place).take 4)
  have few := Nat.pow_le_pow_right (show 0 < 0x100 by decide)
    (List.length_take_le 4 (data.drop place))
  rw [wordAt, twosComplement]
  refine Int32.toInt_ofInt_of_le ?_ ?_ <;> split <;> simp at * <;> omega

/-- What was passed from a place of some data on are the bytes there. -/
theorem Cursor.Passes.at {data bytes : List UInt8} {place : Nat} {after : Cursor}
    (passes : (Cursor.at data place).Passes bytes after) :
    after = .at data (place + bytes.length) ∧ (data.drop place).take bytes.length = bytes := by
  obtain ⟨position, rest⟩ := after
  obtain ⟨whole, rfl⟩ := passes
  have whole : data.drop place = bytes ++ rest := whole
  have left : data.drop (place + bytes.length) = rest := by
    rw [← List.drop_drop, whole, List.drop_left]
  exact ⟨congrArg (Cursor.mk _) left.symm, by rw [whole, List.take_left]⟩

namespace Reader

variable {α β : Type} {reader first : Reader α} {next : α → Reader β} {data : List UInt8}
  {place : Nat} {property : Nat → α → Prop} {further : Nat → β → Prop}

/-- Where the reader succeeds at a place of some data, it comes to another place, and that place and
the value have a property. -/
def Finds (reader : Reader α) (data : List UInt8) (place : Nat)
    (property : Nat → α → Prop) : Prop :=
  ∀ value after, reader (.at data place) = .ok (value, after) →
    ∃ behind, after = .at data behind ∧ property behind value

theorem finds_pure {value : α} (holds : property place value) :
    (pure value : Reader α).Finds data place property := by
  intro _ _ read
  cases read
  exact ⟨place, rfl, holds⟩

theorem finds_ofExcept {result : Except Failure α}
    (holds : ∀ value, result = .ok value → property place value) :
    (ofExcept result).Finds data place property := by
  intro value _ read
  obtain ⟨computed, rfl⟩ := ofExcept_eq_ok read
  exact ⟨place, rfl, holds value computed⟩

/-- The second step begins where the first one came to. -/
theorem Finds.bind (here : first.Finds data place property)
    (there : ∀ behind value, property behind value → (next value).Finds data behind further) :
    (first >>= next).Finds data place further := by
  intro result after read
  obtain ⟨value, between, one, two⟩ := bindState_eq_ok.mp read
  obtain ⟨behind, rfl, holds⟩ := here value between one
  exact there behind value holds result after two

theorem finds_skip (count : Nat) :
    (skip count).Finds data place fun behind _ => behind = place + count := by
  intro _ after read
  obtain ⟨bytes, rfl, passes⟩ := skip_eq_ok read
  exact ⟨_, passes.at.1, rfl⟩

theorem finds_word (type : WordType) : (word type).Finds data place fun behind value =>
    behind = place + type.bytes ∧ value = bigEndian ((data.drop place).take type.bytes) := by
  intro value after read
  obtain ⟨small, passes⟩ := word_eq_ok read
  obtain ⟨came, bytes⟩ := passes.at
  rw [length_bigEndianBytes] at came bytes
  refine ⟨_, came, rfl, ?_⟩
  rw [bytes, bigEndian_bigEndianBytes, Nat.mod_eq_of_lt small]

theorem finds_signed : (signed 4).Finds data place fun behind value =>
    behind = place + 4 ∧ value = wordAt data place :=
  (finds_word ⟨4, true⟩).bind fun _ _ ⟨came, spelled⟩ => finds_pure ⟨came, by rw [spelled]; rfl⟩

theorem finds_i32 : i32.Finds data place fun behind value =>
    behind = place + 4 ∧ value.toInt = wordAt data place :=
  finds_signed.bind fun _ _ ⟨came, spelled⟩ =>
    finds_pure ⟨came, by rw [spelled, toInt_ofInt_wordAt]⟩

/-- Items of one size are read from places that are as far apart. -/
theorem Finds.times {item : Reader α} {unit : Nat} {fits : Nat → α → Prop}
    (finds : ∀ place, item.Finds data place fun behind value =>
      behind = place + unit ∧ fits place value) (count place : Nat) :
    (times item count).Finds data place fun _ values => values.length = count ∧
      ∀ index value, values[index]? = some value → fits (place + unit * index) value := by
  induction count generalizing place with
  | zero => exact finds_pure ⟨rfl, fun index value found => nomatch found⟩
  | succ count ih =>
    refine (finds place).bind fun behind first ⟨came, fit⟩ => (ih behind).bind
      fun _ others ⟨length, fits⟩ => finds_pure ⟨congrArg (· + 1) length, ?_⟩
    rintro (_ | index) value found
    · cases found
      exact fit
    · have there := fits index value found
      rwa [came, Nat.add_assoc, Nat.add_comm unit, ← Nat.mul_succ] at there

end Reader

end Binary

/-! ## What the bytes say -/

namespace Bytecode

section Bytes

variable (bytecode : List UInt8) (offset : Nat)

/-- The operands of a switch begin at the first multiple of four behind its opcode, with the
distance of the default. -/
def operandsAt : Nat := (offset / 4 + 1) * 4

/-- The least key of a switch over a range. -/
def lowAt : Int := wordAt bytecode (operandsAt offset + 4)

/-- The greatest key of a switch over a range. -/
def highAt : Int := wordAt bytecode (operandsAt offset + 8)

/-- The keys of a switch over a range. -/
def rangeKeys : List Int :=
  (List.range (highAt bytecode offset - lowAt bytecode offset + 1).toNat).map fun index : Nat =>
    lowAt bytecode offset + index

/-- Where a switch over a range leads: for a key of the range by the distance with the number of
the key in the range, and else by the default. -/
def rangeTarget (value : Int) : Int :=
  offset + wordAt bytecode
    (if lowAt bytecode offset ≤ value ∧ value ≤ highAt bytecode offset then
      operandsAt offset + 12 + 4 * (value - lowAt bytecode offset).toNat
    else operandsAt offset)

/-- How many keys a switch lists. -/
def countAt : Int := wordAt bytecode (operandsAt offset + 4)

/-- A key that a switch lists. -/
def keyAt (index : Nat) : Int := wordAt bytecode (operandsAt offset + 8 + 8 * index)

/-- The keys that a switch lists. -/
def listedKeys : List Int :=
  (List.range (countAt bytecode offset).toNat).map (keyAt bytecode offset)

/-- Where a switch over listed keys leads: for a key by the distance behind it, and else by the
default. -/
def listedTarget (value : Int) : Int :=
  offset + wordAt bytecode
    (match (List.range (countAt bytecode offset).toNat).find? fun index =>
        keyAt bytecode offset index = value with
    | some index => operandsAt offset + 12 + 8 * index
    | none => operandsAt offset)

end Bytes

section Bytes

variable {bytecode : List UInt8} {offset : Nat} {value : Int}

theorem mem_rangeKeys : value ∈ rangeKeys bytecode offset ↔
    lowAt bytecode offset ≤ value ∧ value ≤ highAt bytecode offset := by
  simp only [rangeKeys, List.mem_map, List.mem_range]
  constructor
  · rintro ⟨index, inside, rfl⟩
    omega
  · rintro ⟨above, below⟩
    exact ⟨(value - lowAt bytecode offset).toNat, by omega, by omega⟩

theorem nodup_rangeKeys : (rangeKeys bytecode offset).Nodup :=
  List.nodup_range.map fun _ _ same => Int.ofNat_inj.mp (Int.add_left_cancel same)

theorem rangeTarget_of_mem {index : Nat}
    (inside : lowAt bytecode offset + index ∈ rangeKeys bytecode offset) :
    rangeTarget bytecode offset (lowAt bytecode offset + index) =
      offset + wordAt bytecode (operandsAt offset + 12 + 4 * index) := by
  have number : (lowAt bytecode offset + index - lowAt bytecode offset).toNat = index := by omega
  rw [rangeTarget, if_pos (mem_rangeKeys.mp inside), number]

theorem rangeTarget_of_notMem (outside : value ∉ rangeKeys bytecode offset) :
    rangeTarget bytecode offset value = offset + wordAt bytecode (operandsAt offset) := by
  rw [rangeTarget, if_neg fun inside => outside (mem_rangeKeys.mpr inside)]

/-- A key that is listed once leads where the distance behind it says. -/
theorem listedTarget_keyAt (distinct : (listedKeys bytecode offset).Nodup) {index : Nat}
    (inside : index < (countAt bytecode offset).toNat) :
    listedTarget bytecode offset (keyAt bytecode offset index) =
      offset + wordAt bytecode (operandsAt offset + 12 + 8 * index) := by
  rw [listedTarget]
  split
  next other found =>
    have same : keyAt bytecode offset other = keyAt bytecode offset index := by
      simpa using List.find?_some found
    rw [List.inj_on_of_nodup_map distinct (List.mem_of_find?_eq_some found)
      (List.mem_range.mpr inside) same]
  next missing =>
    exact absurd (decide_eq_true rfl) (List.find?_eq_none.mp missing index
      (List.mem_range.mpr inside))

theorem listedTarget_of_notMem (outside : value ∉ listedKeys bytecode offset) :
    listedTarget bytecode offset value = offset + wordAt bytecode (operandsAt offset) := by
  rw [listedTarget, List.find?_eq_none.mpr]
  intro index inside same
  exact outside (List.mem_map.mpr ⟨index, inside, of_decide_eq_true same⟩)

end Bytes

/-- A switch stands at an offset of some bytecode, which lists some keys and has a target for every
value.  If it is not over a range, no key is listed twice. -/
inductive SwitchAt (bytecode : List UInt8) (offset : Nat) : List Int → (Int → Int) → Prop where
  | range (opcode : bytecode[offset]? = some 0xaa) :
    SwitchAt bytecode offset (rangeKeys bytecode offset) (rangeTarget bytecode offset)
  | listed (opcode : bytecode[offset]? = some 0xab)
    (distinct : (listedKeys bytecode offset).Nodup) :
    SwitchAt bytecode offset (listedKeys bytecode offset) (listedTarget bytecode offset)

/-! ## What is decoded -/

/-- What is decoded of a switch over a range is what its bytes say. -/
structure RangeAt (bytecode : List UInt8) (offset default : Nat) (low high : Int32)
    (targets : List Nat) : Prop where
  default : (default : Int) = offset + wordAt bytecode (operandsAt offset)
  low : low.toInt = lowAt bytecode offset
  high : high.toInt = highAt bytecode offset
  length : targets.length = (highAt bytecode offset - lowAt bytecode offset + 1).toNat
  targets : ∀ (index target : Nat), targets[index]? = some target →
    (target : Int) = offset + wordAt bytecode (operandsAt offset + 12 + 4 * index)

/-- What is decoded of a switch over listed keys is what its bytes say. -/
structure ListedAt (bytecode : List UInt8) (offset default : Nat) (pairs : List (Int32 × Nat)) :
    Prop where
  default : (default : Int) = offset + wordAt bytecode (operandsAt offset)
  length : pairs.length = (countAt bytecode offset).toNat
  pairs : ∀ (index : Nat) (pair : Int32 × Nat), pairs[index]? = some pair →
    pair.1.toInt = keyAt bytecode offset index ∧
      (pair.2 : Int) = offset + wordAt bytecode (operandsAt offset + 12 + 8 * index)

section Decoding

open Reader

variable {site : Site} {bytecode : List UInt8} {place : Nat}

/-- In short code, offsets need no more than sixteen bits. -/
theorem eq_of_target {distance : Int} {target : Nat} (short : site.codeLength ≤ 0xffff)
    (found : site.target distance = .ok target) : (target : Int) = site.offset + distance := by
  simp only [Site.target] at found
  split at found
  · cases found
  · cases found
    omega

theorem finds_readBranch (short : site.codeLength ≤ 0xffff) :
    (readBranch site 4).Finds bytecode place fun behind target =>
      behind = place + 4 ∧ (target : Int) = site.offset + wordAt bytecode place :=
  finds_signed.bind fun _ _ ⟨came, spelled⟩ => finds_ofExcept fun _ found =>
    ⟨came, spelled ▸ eq_of_target short found⟩

/-- The padding leads to the operands. -/
theorem finds_align (offset : Nat) :
    align.Finds bytecode (offset + 1) fun behind _ => behind = operandsAt offset := by
  intro _ after read
  obtain ⟨_, _, here, read⟩ := bindState_eq_ok.mp read
  cases here
  obtain ⟨behind, came, rfl⟩ := finds_skip _ _ after read
  refine ⟨_, came, ?_⟩
  rw [operandsAt]
  show offset + 1 + (4 - (offset + 1) % 4) % 4 = _
  omega

theorem finds_readTableSwitch (short : site.codeLength ≤ 0xffff) :
    (readTableSwitch site).Finds bytecode (site.offset + 1) fun _ instruction =>
      ∃ default low high targets, instruction = .tableSwitch default low high targets ∧
        RangeAt bytecode site.offset default low high targets := by
  refine (finds_align _).bind fun _ _ aligned => (finds_readBranch short).bind
    fun _ default ⟨one, first⟩ => finds_i32.bind fun _ low ⟨two, least⟩ =>
      finds_i32.bind fun _ high ⟨three, greatest⟩ => ?_
  subst aligned one two three
  split
  · exact finds_ofExcept fun _ none => nomatch none
  · refine (Finds.times (fun _ => finds_readBranch short) _ _).bind
      fun _ targets ⟨length, fits⟩ => finds_pure ⟨default, low, high, targets, rfl, ?_⟩
    exact {
      default := first
      low := least
      high := greatest
      length := by rw [length, least, greatest]; rfl
      targets := fits }

theorem finds_readCase (short : site.codeLength ≤ 0xffff) :
    (readCase site).Finds bytecode place fun behind pair => behind = place + 8 ∧
      pair.1.toInt = wordAt bytecode place ∧
        (pair.2 : Int) = site.offset + wordAt bytecode (place + 4) := by
  refine finds_i32.bind fun _ key ⟨one, spelled⟩ => (finds_readBranch short).bind
    fun _ target ⟨two, leads⟩ => finds_pure ⟨?_, spelled, ?_⟩
  · rw [two, one]
  · rw [leads, one]

theorem finds_readLookupSwitch (short : site.codeLength ≤ 0xffff) :
    (readLookupSwitch site).Finds bytecode (site.offset + 1) fun _ instruction =>
      ∃ default pairs, instruction = .lookupSwitch default pairs ∧
        ListedAt bytecode site.offset default pairs := by
  refine (finds_align _).bind fun _ _ aligned => (finds_readBranch short).bind
    fun _ default ⟨one, first⟩ => finds_i32.bind fun _ count ⟨two, many⟩ => ?_
  subst aligned one two
  split
  · exact finds_ofExcept fun _ none => nomatch none
  · refine (Finds.times (fun _ => finds_readCase short) _ _).bind
      fun _ pairs ⟨length, fits⟩ => finds_pure ⟨default, pairs, rfl, ?_⟩
    exact {
      default := first
      length := by rw [length, many]; rfl
      pairs := fun index pair found => by
        obtain ⟨key, target⟩ := fits index pair found
        refine ⟨key, ?_⟩
        rwa [Nat.add_right_comm] at target }

/-- The instruction is read behind its opcode. -/
theorem exists_readOperands {pool : ConstantPool} {codeLength : Nat} {placed : Placed}
    {after : Cursor} (small : place ≤ 0xffff)
    (read : readInstruction pool codeLength (.at bytecode place) = .ok (placed, after)) :
    ∃ last, readOperands ⟨pool, codeLength, place⟩ placed.opcode (.at bytecode (place + 1)) =
      .ok (placed.instruction, last) := by
  obtain ⟨_, _, here, read⟩ := bindState_eq_ok.mp read
  cases here
  have standing : (Cursor.at bytecode place).position % 0x10000 = place :=
    Nat.mod_eq_of_lt (Nat.lt_succ_of_le small)
  rw [standing] at read
  obtain ⟨opcode, between, first, read⟩ := bindState_eq_ok.mp read
  obtain ⟨instruction, last, operands, made⟩ := bindState_eq_ok.mp read
  cases made
  obtain ⟨_, rfl, rfl, _⟩ := finds_word _ _ _ first
  exact ⟨_, during_eq_ok.mp operands⟩

namespace Covers

variable {pool : ConstantPool} {instructions : List Placed} {placed : Placed}

/-- The operands that follow an opcode are read where they stand. -/
theorem exists_readForm (covers : Covers pool bytecode instructions)
    (short : bytecode.length ≤ 0xffff) (member : placed ∈ instructions) {opcode : UInt8}
    {form : Form} (opens : bytecode[placed.offset]? = some opcode)
    (formed : Form.ofOpcode? opcode.toNat = some form) :
    ∃ last, readForm ⟨pool, bytecode.length, placed.offset⟩ form
      (.at bytecode (placed.offset + 1)) = .ok (placed.instruction, last) := by
  have known := covers.opcode placed member
  rw [opens] at known
  have inside := (List.getElem?_eq_some_iff.mp opens).1
  have read := covers.bytes placed member ((bytecode.drop placed.offset).drop placed.size)
  rw [List.take_append_drop] at read
  obtain ⟨last, operands⟩ := exists_readOperands (by omega) read
  rw [readOperands, ← Option.some.inj known, formed] at operands
  exact ⟨last, operands⟩

theorem exists_rangeAt (covers : Covers pool bytecode instructions)
    (short : bytecode.length ≤ 0xffff) (member : placed ∈ instructions)
    (opens : bytecode[placed.offset]? = some 0xaa) :
    ∃ default low high targets, placed.instruction = .tableSwitch default low high targets ∧
      RangeAt bytecode placed.offset default low high targets := by
  have formed : Form.ofOpcode? 0xaa = some .tableSwitch := rfl
  obtain ⟨_, read⟩ := covers.exists_readForm short member opens formed
  obtain ⟨_, _, decoded⟩ := finds_readTableSwitch short _ _ read
  exact decoded

theorem exists_listedAt (covers : Covers pool bytecode instructions)
    (short : bytecode.length ≤ 0xffff) (member : placed ∈ instructions)
    (opens : bytecode[placed.offset]? = some 0xab) :
    ∃ default pairs, placed.instruction = .lookupSwitch default pairs ∧
      ListedAt bytecode placed.offset default pairs := by
  have formed : Form.ofOpcode? 0xab = some .lookupSwitch := rfl
  obtain ⟨_, read⟩ := covers.exists_readForm short member opens formed
  obtain ⟨_, _, decoded⟩ := finds_readLookupSwitch short _ _ read
  exact decoded

end Covers

end Decoding

end Bytecode

end Bytescript
