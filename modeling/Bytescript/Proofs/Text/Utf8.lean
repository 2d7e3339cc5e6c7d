import Bytescript.Text.Utf8

/-!
# Strings that are read back

What is written in the modified form is read back, whichever of the two forms it is taken for.  If
a string has neither a NUL nor surrogates among its units, both forms are the same.  Otherwise the
bytes are no standard UTF-8, so they are read unit by unit, and the units are those of the string.
They give the string again unless it keeps two surrogates apart that make a pair.  The modified form
has no zero byte, not even for the NUL.
-/

set_option autoImplicit false

namespace Bytescript

namespace Text

/-! ## First bytes -/

theorem eq_iff_toNat (byte other : UInt8) : byte = other ↔ byte.toNat = other.toNat :=
  UInt8.toNat_inj.symm

/-- The byte of a number that fits, with the bound as a number. -/
theorem toNat_ofNat {number : Nat} (small : number < 0x100) :
    (UInt8.ofNat number).toNat = number := UInt8.toNat_ofNat_of_lt' small

/-- The first byte of a character of two bytes. -/
theorem standardTail_two {first : UInt8} (low : 0xc2 ≤ first.toNat) (high : first.toNat ≤ 0xdf) :
    standardTail first = some (1, 0x80, 0xbf) := by
  simp [standardTail, between, low, high]

/-- The first byte of a character of three bytes.  What follows has to make up a number that needs
three bytes, and no surrogate. -/
theorem standardTail_three {first : UInt8} (low : 0xe0 ≤ first.toNat)
    (high : first.toNat ≤ 0xef) :
    standardTail first = some (2, if first.toNat = 0xe0 then 0xa0 else 0x80,
      if first.toNat = 0xed then 0x9f else 0xbf) := by
  simp only [standardTail, between, eq_iff_toNat, UInt8.reduceToNat, Bool.and_eq_true,
    decide_eq_true_eq]
  grind

/-- The first byte of a character of four bytes. -/
theorem standardTail_four {first : UInt8} (low : 0xf0 ≤ first.toNat)
    (high : first.toNat ≤ 0xf4) :
    standardTail first = some (3, if first.toNat = 0xf0 then 0x90 else 0x80,
      if first.toNat = 0xf4 then 0x8f else 0xbf) := by
  simp only [standardTail, between, eq_iff_toNat, UInt8.reduceToNat, Bool.and_eq_true,
    decide_eq_true_eq]
  grind

/-! ## Units -/

section Units

variable {unit : Nat} {rest : List UInt8}

theorem encodeUnit_one (written : 0 < unit) (small : unit < 0x80) :
    encodeUnit unit = [UInt8.ofNat unit] := if_pos ⟨written, small⟩

theorem encodeUnit_two (large : ¬ (0 < unit ∧ unit < 0x80)) (small : unit < 0x800) :
    encodeUnit unit = [UInt8.ofNat (0xc0 + unit / 0x40), UInt8.ofNat (0x80 + unit % 0x40)] := by
  rw [encodeUnit, if_neg large, if_pos small]

theorem encodeUnit_three (large : 0x800 ≤ unit) :
    encodeUnit unit = [UInt8.ofNat (0xe0 + unit / 0x1000),
      UInt8.ofNat (0x80 + unit / 0x40 % 0x40), UInt8.ofNat (0x80 + unit % 0x40)] := by
  rw [encodeUnit, if_neg (by omega), if_neg (by omega)]

theorem decodeUnits_one {first : UInt8} (ascii : 0 < first.toNat ∧ first.toNat < 0x80) :
    decodeUnits (first :: rest) = (decodeUnits rest).map (first.toNat :: ·) := by
  rw [decodeUnits.eq_def]
  refine if_pos ?_
  simp only [between, Bool.and_eq_true, decide_eq_true_eq]
  omega

theorem decodeUnits_two {first second : UInt8} (two : 0xc2 ≤ first.toNat ∧ first.toNat ≤ 0xdf)
    (continued : isContinuation second = true) :
    decodeUnits (first :: second :: rest) =
      (decodeUnits rest).map ((first.toNat % 0x20 * 0x40 + continuationBits second) :: ·) := by
  have ascii : ¬ between 0x01 0x7f first = true := by
    simp only [between, Bool.and_eq_true, decide_eq_true_eq]
    omega
  have different : ¬ first = 0xc0 := by
    rintro rfl
    exact absurd two.1 (by decide)
  have range : between 0xc2 0xdf first = true := by
    simpa only [between, Bool.and_eq_true, decide_eq_true_eq] using two
  rw [decodeUnits.eq_def]
  simp only [if_neg ascii, if_neg different, if_pos range, if_pos continued]

theorem decodeUnits_three {first second third : UInt8}
    (three : 0xe0 ≤ first.toNat ∧ first.toNat ≤ 0xef)
    (least : first.toNat = 0xe0 → 0xa0 ≤ second.toNat)
    (continued : isContinuation second = true) (continued' : isContinuation third = true) :
    decodeUnits (first :: second :: third :: rest) =
      (decodeUnits rest).map ((first.toNat % 0x10 * 0x1000 + continuationBits second * 0x40
        + continuationBits third) :: ·) := by
  have ascii : ¬ between 0x01 0x7f first = true := by
    simp only [between, Bool.and_eq_true, decide_eq_true_eq]
    omega
  have different : ¬ first = 0xc0 := by
    rintro rfl
    exact absurd three.1 (by decide)
  have two : ¬ between 0xc2 0xdf first = true := by
    simp only [between, Bool.and_eq_true, decide_eq_true_eq]
    omega
  have range : between 0xe0 0xef first = true := by
    simpa only [between, Bool.and_eq_true, decide_eq_true_eq] using three
  have needed : (if first = 0xe0 then between 0xa0 0xbf second else isContinuation second)
      = true := by
    split
    next same =>
      have low := least (by rw [same]; rfl)
      simp only [isContinuation, between, Bool.and_eq_true, decide_eq_true_eq] at continued ⊢
      omega
    next => exact continued
  rw [decodeUnits.eq_def]
  simp only [if_neg ascii, if_neg different, if_neg two, if_pos range, needed, continued',
    Bool.and_true, if_true]

/-- A continuation byte carries six bits. -/
theorem isContinuation_ofNat (number : Nat) (small : number < 0x40) :
    isContinuation (UInt8.ofNat (0x80 + number)) = true ∧
      continuationBits (UInt8.ofNat (0x80 + number)) = number := by
  have byte : (UInt8.ofNat (0x80 + number)).toNat = 0x80 + number := toNat_ofNat (by omega)
  simp only [isContinuation, between, continuationBits, byte, Bool.and_eq_true,
    decide_eq_true_eq]
  omega

/-- A unit is read back from its modified form. -/
theorem decodeUnits_encodeUnit (small : unit < 0x10000) :
    decodeUnits (encodeUnit unit ++ rest) = (decodeUnits rest).map (unit :: ·) := by
  by_cases one : 0 < unit ∧ unit < 0x80
  · have byte : (UInt8.ofNat unit).toNat = unit := toNat_ofNat (by omega)
    rw [encodeUnit_one one.1 one.2, List.singleton_append,
      decodeUnits_one (by rw [byte]; exact one), byte]
  by_cases two : unit < 0x800
  · obtain ⟨continued, bits⟩ := isContinuation_ofNat (unit % 0x40) (by omega)
    have first : (UInt8.ofNat (0xc0 + unit / 0x40)).toNat = 0xc0 + unit / 0x40 :=
      toNat_ofNat (by omega)
    rw [encodeUnit_two one two, List.cons_append, List.singleton_append]
    by_cases zero : unit = 0
    · subst zero
      show decodeUnits (0xc0 :: 0x80 :: rest) = _
      rw [decodeUnits.eq_def]
      rfl
    · have value : (0xc0 + unit / 0x40) % 0x20 * 0x40 + unit % 0x40 = unit := by omega
      rw [decodeUnits_two (by omega) continued, first, bits, value]
  · obtain ⟨continued, bits⟩ := isContinuation_ofNat (unit / 0x40 % 0x40) (by omega)
    obtain ⟨continued', bits'⟩ := isContinuation_ofNat (unit % 0x40) (by omega)
    have first : (UInt8.ofNat (0xe0 + unit / 0x1000)).toNat = 0xe0 + unit / 0x1000 :=
      toNat_ofNat (by omega)
    have second : (UInt8.ofNat (0x80 + unit / 0x40 % 0x40)).toNat = 0x80 + unit / 0x40 % 0x40 :=
      toNat_ofNat (by omega)
    have value : (0xe0 + unit / 0x1000) % 0x10 * 0x1000 + unit / 0x40 % 0x40 * 0x40
        + unit % 0x40 = unit := by omega
    rw [encodeUnit_three (by omega), List.cons_append, List.cons_append, List.singleton_append,
      decodeUnits_three (by omega) (by omega) continued continued', first, bits, bits', value]

/-- Units of the modified form are read one by one. -/
theorem decodeUnits_flatMap_encodeUnit {units : List Nat} (small : ∀ unit ∈ units, unit < 0x10000) :
    decodeUnits (units.flatMap encodeUnit) = some units := by
  induction units with
  | nil => rw [List.flatMap_nil, decodeUnits_nil]
  | cons unit units ih =>
    rw [List.forall_mem_cons] at small
    rw [List.flatMap_cons, decodeUnits_encodeUnit small.1, ih small.2, Option.map_some]

/-! ## The standard form -/

theorem decodeStandard_one {first : UInt8} (ascii : first.toNat < 0x80) {point : CodePoint}
    (value : point.val = first.toNat) :
    decodeStandard (first :: rest) = (decodeStandard rest).map (point :: ·) := by
  have same : (⟨first.toNat % 0x80, by omega⟩ : CodePoint) = point := by
    rw [Fin.ext_iff, value]
    exact Nat.mod_eq_of_lt ascii
  rw [decodeStandard.eq_def]
  simp only [if_pos ascii, same]

theorem decodeStandard_two {first second : UInt8} (two : 0xc2 ≤ first.toNat ∧ first.toNat ≤ 0xdf)
    (continued : isContinuation second = true) {point : CodePoint}
    (value : point.val = first.toNat % 0x20 * 0x40 + continuationBits second) :
    decodeStandard (first :: second :: rest) = (decodeStandard rest).map (point :: ·) := by
  have ascii : ¬ first.toNat < 0x80 := by omega
  have same : (⟨first.toNat % 0x20 * 0x40 + continuationBits second, value ▸ point.isLt⟩
      : CodePoint) = point := Fin.ext value.symm
  rw [decodeStandard.eq_def]
  simp only [if_neg ascii, standardTail_two two.1 two.2, ← isContinuation.eq_def,
    if_pos continued, same]

/-- A character of three bytes is no surrogate and needs all of them. -/
theorem decodeStandard_three {first second third : UInt8}
    (three : 0xe0 ≤ first.toNat ∧ first.toNat ≤ 0xef)
    (least : first.toNat = 0xe0 → 0xa0 ≤ second.toNat)
    (greatest : first.toNat = 0xed → second.toNat < 0xa0)
    (continued : isContinuation second = true) (continued' : isContinuation third = true)
    {point : CodePoint} (value : point.val = first.toNat % 0x10 * 0x1000
      + continuationBits second * 0x40 + continuationBits third) :
    decodeStandard (first :: second :: third :: rest) =
      (decodeStandard rest).map (point :: ·) := by
  have ascii : ¬ first.toNat < 0x80 := by omega
  have range : between (if first.toNat = 0xe0 then 0xa0 else 0x80)
      (if first.toNat = 0xed then 0x9f else 0xbf) second = true := by
    simp only [isContinuation, between, Bool.and_eq_true, decide_eq_true_eq] at continued ⊢
    constructor <;> split <;> omega
  have same : (⟨first.toNat % 0x10 * 0x1000 + continuationBits second * 0x40
      + continuationBits third, value ▸ point.isLt⟩ : CodePoint) = point := Fin.ext value.symm
  rw [decodeStandard.eq_def]
  simp only [if_neg ascii, standardTail_three three.1 three.2, range, continued', Bool.and_true,
    if_true, same]

/-- A character of four bytes needs all of them, and is not above the last one. -/
theorem decodeStandard_four {first second third fourth : UInt8}
    (four : 0xf0 ≤ first.toNat ∧ first.toNat ≤ 0xf4)
    (least : first.toNat = 0xf0 → 0x90 ≤ second.toNat)
    (greatest : first.toNat = 0xf4 → second.toNat < 0x90)
    (continued : isContinuation second = true) (continued' : isContinuation third = true)
    (continued'' : isContinuation fourth = true) {point : CodePoint}
    (value : point.val = first.toNat % 0x08 * 0x40000 + continuationBits second * 0x1000
      + continuationBits third * 0x40 + continuationBits fourth) :
    decodeStandard (first :: second :: third :: fourth :: rest) =
      (decodeStandard rest).map (point :: ·) := by
  have ascii : ¬ first.toNat < 0x80 := by omega
  have range : between (if first.toNat = 0xf0 then 0x90 else 0x80)
      (if first.toNat = 0xf4 then 0x8f else 0xbf) second = true := by
    simp only [isContinuation, between, Bool.and_eq_true, decide_eq_true_eq] at continued ⊢
    constructor <;> split <;> omega
  have same : (⟨(first.toNat % 0x08 * 0x40000 + continuationBits second * 0x1000
      + continuationBits third * 0x40 + continuationBits fourth) % 0x110000, by omega⟩
      : CodePoint) = point := by
    rw [Fin.ext_iff, value]
    exact Nat.mod_eq_of_lt (value ▸ point.isLt)
  rw [decodeStandard.eq_def]
  simp only [if_neg ascii, standardTail_four four.1 four.2, range, continued', continued'',
    Bool.and_true, if_true, same]

/-- A surrogate is no character of the standard form. -/
theorem decodeStandard_surrogate {first second : UInt8} (surrogate : first.toNat = 0xed)
    (upper : 0xa0 ≤ second.toNat) : decodeStandard (first :: second :: rest) = none := by
  have ascii : ¬ first.toNat < 0x80 := by omega
  have range (low : Nat) : between low 0x9f second = false := by
    simp only [between, Bool.and_eq_false_iff, decide_eq_false_iff_not]
    omega
  have tail := @standardTail_three first (by omega) (by omega)
  rw [if_pos surrogate] at tail
  rw [decodeStandard.eq_def]
  simp only [if_neg ascii, tail]
  cases rest with
  | nil => rfl
  | cons third rest => simp only [range, Bool.false_and, Bool.false_eq_true, if_false]

/-- The modified form of most units is their standard form. -/
theorem decodeStandard_encodeUnit {point : CodePoint} (basic : point.val < 0x10000)
    (written : 0 < point.val) (whole : CodePoint.isSurrogate point.val = false) :
    decodeStandard (encodeUnit point.val ++ rest) = (decodeStandard rest).map (point :: ·) := by
  simp only [CodePoint.isSurrogate, Bool.and_eq_false_iff, decide_eq_false_iff_not] at whole
  generalize number : point.val = unit at *
  by_cases one : 0 < unit ∧ unit < 0x80
  · have byte : (UInt8.ofNat unit).toNat = unit := toNat_ofNat (by omega)
    rw [encodeUnit_one one.1 one.2, List.singleton_append]
    exact decodeStandard_one (by omega) (by omega)
  by_cases two : unit < 0x800
  · obtain ⟨continued, bits⟩ := isContinuation_ofNat (unit % 0x40) (by omega)
    have first : (UInt8.ofNat (0xc0 + unit / 0x40)).toNat = 0xc0 + unit / 0x40 :=
      toNat_ofNat (by omega)
    rw [encodeUnit_two one two, List.cons_append, List.singleton_append]
    exact decodeStandard_two (by omega) continued (by omega)
  · obtain ⟨continued, bits⟩ := isContinuation_ofNat (unit / 0x40 % 0x40) (by omega)
    obtain ⟨continued', bits'⟩ := isContinuation_ofNat (unit % 0x40) (by omega)
    have first : (UInt8.ofNat (0xe0 + unit / 0x1000)).toNat = 0xe0 + unit / 0x1000 :=
      toNat_ofNat (by omega)
    have second : (UInt8.ofNat (0x80 + unit / 0x40 % 0x40)).toNat = 0x80 + unit / 0x40 % 0x40 :=
      toNat_ofNat (by omega)
    rw [encodeUnit_three (by omega), List.cons_append, List.cons_append, List.singleton_append]
    exact decodeStandard_three (by omega) (by omega) (by omega) continued continued' (by omega)

/-- The modified forms of the NUL and of surrogates are no standard forms. -/
theorem decodeStandard_encodeUnit_eq_none (small : unit < 0x10000)
    (odd : unit = 0 ∨ CodePoint.isSurrogate unit = true) :
    decodeStandard (encodeUnit unit ++ rest) = none := by
  rcases odd with rfl | surrogate
  · show decodeStandard (0xc0 :: 0x80 :: rest) = none
    rw [decodeStandard.eq_def]
    rfl
  · simp only [CodePoint.isSurrogate, Bool.and_eq_true, decide_eq_true_eq] at surrogate
    have first : (UInt8.ofNat (0xe0 + unit / 0x1000)).toNat = 0xe0 + unit / 0x1000 :=
      toNat_ofNat (by omega)
    have second : (UInt8.ofNat (0x80 + unit / 0x40 % 0x40)).toNat = 0x80 + unit / 0x40 % 0x40 :=
      toNat_ofNat (by omega)
    rw [encodeUnit_three (by omega), List.cons_append, List.cons_append, List.singleton_append]
    exact decodeStandard_surrogate (by omega) (by omega)

end Units

/-! ## Strings -/

theorem encodeJava_cons (point : CodePoint) (points : List CodePoint) :
    encodeJava ⟨point :: points⟩ = point.units.flatMap encodeUnit ++ encodeJava ⟨points⟩ := by
  simp [encodeJava, JavaString.units]

/-- The modified form of a string is either no standard form at all, or that of the same string. -/
theorem decodeStandard_encodeJava (points : List CodePoint) :
    decodeStandard (encodeJava ⟨points⟩) = none ∨
      decodeStandard (encodeJava ⟨points⟩) = some points := by
  induction points with
  | nil => exact .inr decodeStandard_nil
  | cons point points ih =>
    rw [encodeJava_cons]
    by_cases basic : point.val < 0x10000
    · have units : point.units = [point.val] := if_pos basic
      rw [units, List.flatMap_singleton]
      by_cases plain : 0 < point.val ∧ CodePoint.isSurrogate point.val = false
      · rw [decodeStandard_encodeUnit basic plain.1 plain.2]
        rcases ih with none | same
        · exact .inl (by rw [none, Option.map_none])
        · exact .inr (by rw [same, Option.map_some])
      · refine .inl (decodeStandard_encodeUnit_eq_none basic ?_)
        rw [not_and, Bool.not_eq_false] at plain
        rcases Nat.eq_zero_or_pos point.val with zero | written
        · exact .inl zero
        · exact .inr (plain written)
    · have bound := point.isLt
      have units : point.units = [0xd800 + (point.val - 0x10000) / 0x400,
          0xdc00 + (point.val - 0x10000) % 0x400] := if_neg basic
      rw [units, List.flatMap_cons, List.append_assoc]
      refine .inl (decodeStandard_encodeUnit_eq_none (by omega) (.inr ?_))
      simp only [CodePoint.isSurrogate, Bool.and_eq_true, decide_eq_true_eq]
      omega

theorem units_lt (string : JavaString) : ∀ unit ∈ string.units, unit < 0x10000 := by
  intro unit member
  obtain ⟨point, _, member⟩ := List.mem_flatMap.mp member
  have bound := point.isLt
  rw [CodePoint.units] at member
  split at member
  next basic => rwa [List.mem_singleton.mp member]
  next =>
    simp only [List.mem_cons, List.not_mem_nil, or_false] at member
    omega

/-- A string is read back from its modified form, if it has no surrogates that make a pair. -/
theorem readUtf8?_encodeJava {string : JavaString} (joined : .ofUnits string.units = string) :
    readUtf8? (encodeJava string) = some string := by
  rw [readUtf8?]
  rcases decodeStandard_encodeJava string.points with none | same
  · rw [none]
    show (decodeUnits (string.units.flatMap encodeUnit)).map JavaString.ofUnits = _
    rw [decodeUnits_flatMap_encodeUnit (units_lt string), Option.map_some, joined]
  · rw [same]

end Text

/-! ## Texts -/

namespace CodePoint

theorem not_isSurrogate_ofChar (char : Char) : isSurrogate (ofChar char).val = false := by
  have valid := char.valid
  have value : (ofChar char).val = char.val.toNat := rfl
  simp only [UInt32.isValidChar, Nat.isValidChar] at valid
  simp only [isSurrogate, value, Bool.and_eq_false_iff, decide_eq_false_iff_not]
  omega

theorem toChar?_ofChar (char : Char) : (ofChar char).toChar? = some char := by
  rw [toChar?, not_isSurrogate_ofChar]
  exact congrArg some (Char.ofNat_toNat char)

end CodePoint

namespace JavaString

theorem toString?_ofString (text : String) : (ofString text).toString? = some text := by
  have points : (text.toList.map CodePoint.ofChar).mapM CodePoint.toChar? = some text.toList := by
    generalize text.toList = chars
    induction chars with
    | nil => rfl
    | cons char chars ih => simp [CodePoint.toChar?_ofChar, ih]
  simp [toString?, ofString, points]

/-- The units of a code point that is no surrogate are joined again, whatever follows. -/
theorem pointsOfUnits_append {point : CodePoint} (whole : CodePoint.isSurrogate point.val = false)
    (rest : List Nat) : pointsOfUnits (point.units ++ rest) = point :: pointsOfUnits rest := by
  have bound := point.isLt
  rw [CodePoint.units]
  split
  next basic =>
    have same : (⟨point.val % 0x10000, by omega⟩ : CodePoint) = point :=
      Fin.ext (Nat.mod_eq_of_lt basic)
    cases rest with
    | nil => exact congrArg (· :: _) same
    | cons next rest =>
      have single : CodePoint.isHighSurrogate point.val = false := by
        simp only [CodePoint.isSurrogate, CodePoint.isHighSurrogate, Bool.and_eq_false_iff,
          decide_eq_false_iff_not] at whole ⊢
        omega
      rw [List.singleton_append, pointsOfUnits, single, Bool.false_and]
      exact congrArg (· :: _) same
  next above =>
    have high : CodePoint.isHighSurrogate (0xd800 + (point.val - 0x10000) / 0x400) = true := by
      simp only [CodePoint.isHighSurrogate, Bool.and_eq_true, decide_eq_true_eq]
      omega
    have low : CodePoint.isLowSurrogate (0xdc00 + (point.val - 0x10000) % 0x400) = true := by
      simp only [CodePoint.isLowSurrogate, Bool.and_eq_true, decide_eq_true_eq]
      omega
    have same : CodePoint.ofPair (0xd800 + (point.val - 0x10000) / 0x400)
        (0xdc00 + (point.val - 0x10000) % 0x400) = point := by
      refine Fin.ext ?_
      simp only [CodePoint.ofPair]
      omega
    rw [List.cons_append, List.singleton_append, pointsOfUnits, high, low, Bool.true_and,
      if_pos rfl, same]

/-- A text has no lone surrogates to join. -/
theorem ofUnits_units_ofString (text : String) : ofUnits (ofString text).units = ofString text := by
  suffices joined : ∀ chars : List Char, pointsOfUnits
      ((chars.map CodePoint.ofChar).flatMap CodePoint.units) = chars.map CodePoint.ofChar from
    congrArg mk (joined text.toList)
  intro chars
  induction chars with
  | nil => rfl
  | cons char chars ih =>
    rw [List.map_cons, List.flatMap_cons,
      pointsOfUnits_append (CodePoint.not_isSurrogate_ofChar char), ih]

end JavaString

namespace Text

/-- Most characters have the same bytes in both forms. -/
theorem utf8EncodeChar_eq_encodeUnit {char : Char} (written : 0 < char.val.toNat)
    (basic : char.val.toNat < 0x10000) :
    String.utf8EncodeChar char = encodeUnit char.val.toNat := by
  simp only [String.utf8EncodeChar]
  generalize char.val.toNat = unit at *
  split
  next one => rw [encodeUnit_one written (by omega)]
  next one =>
    split
    next two =>
      have first : unit / 64 % 32 + 192 = 0xc0 + unit / 0x40 := by omega
      rw [encodeUnit_two (by omega) (by omega), first, Nat.add_comm (unit % 64)]
    next two =>
      have first : unit / 4096 % 16 + 224 = 0xe0 + unit / 0x1000 := by omega
      rw [if_pos (by omega), encodeUnit_three (by omega), first, Nat.add_comm (unit / 64 % 64),
        Nat.add_comm (unit % 64)]

/-- A character is read from its standard form. -/
theorem decodeStandard_utf8EncodeChar (char : Char) (rest : List UInt8) :
    decodeStandard (String.utf8EncodeChar char ++ rest) =
      (decodeStandard rest).map (CodePoint.ofChar char :: ·) := by
  have whole := CodePoint.not_isSurrogate_ofChar char
  have value : (CodePoint.ofChar char).val = char.val.toNat := rfl
  by_cases zero : char.val.toNat = 0
  · simp only [String.utf8EncodeChar, zero]
    exact decodeStandard_one (by decide) (by rw [value, zero]; rfl)
  by_cases basic : char.val.toNat < 0x10000
  · rw [utf8EncodeChar_eq_encodeUnit (by omega) basic, ← value]
    exact decodeStandard_encodeUnit (by omega) (by omega) whole
  · have bound := (CodePoint.ofChar char).isLt
    rw [value] at bound
    simp only [String.utf8EncodeChar]
    generalize number : char.val.toNat = point at *
    rw [if_neg (by omega), if_neg (by omega), if_neg (by omega), Nat.add_comm (_ % 8),
      Nat.add_comm (point / 4096 % 64), Nat.add_comm (point / 64 % 64),
      Nat.add_comm (point % 64)]
    obtain ⟨continued, bits⟩ := isContinuation_ofNat (point / 4096 % 64) (by omega)
    obtain ⟨continued', bits'⟩ := isContinuation_ofNat (point / 64 % 64) (by omega)
    obtain ⟨continued'', bits''⟩ := isContinuation_ofNat (point % 64) (by omega)
    have first : (UInt8.ofNat (240 + point / 262144 % 8)).toNat = 240 + point / 262144 % 8 :=
      toNat_ofNat (by omega)
    have second : (UInt8.ofNat (128 + point / 4096 % 64)).toNat = 128 + point / 4096 % 64 :=
      toNat_ofNat (by omega)
    exact decodeStandard_four (by omega) (by omega) (by omega) continued continued' continued''
      (by omega)

/-- A text is read from its standard form. -/
theorem readUtf8?_utf8EncodeChar (text : String) :
    readUtf8? (text.toList.flatMap String.utf8EncodeChar) = some (.ofString text) := by
  have points : ∀ chars : List Char, decodeStandard (chars.flatMap String.utf8EncodeChar) =
      some (chars.map CodePoint.ofChar) := by
    intro chars
    induction chars with
    | nil => rw [List.flatMap_nil, decodeStandard_nil, List.map_nil]
    | cons char chars ih =>
      rw [List.flatMap_cons, decodeStandard_utf8EncodeChar, ih, Option.map_some, List.map_cons]
  rw [readUtf8?, points]
  rfl

/-- Bytes spell a string in one of the two forms. -/
inductive Spells : List UInt8 → JavaString → Prop where
  | modified {string : JavaString} (joined : .ofUnits string.units = string) :
    Spells (encodeJava string) string
  | standard (text : String) :
    Spells (text.toList.flatMap String.utf8EncodeChar) (.ofString text)

/-- The modified form of a text spells it. -/
theorem spells_modifiedUtf8 (text : String) : Spells (modifiedUtf8 text) (.ofString text) :=
  .modified (JavaString.ofUnits_units_ofString text)

/-- **What bytes spell is read from them**, in either form. -/
theorem Spells.read {bytes : List UInt8} {string : JavaString} (spells : Spells bytes string) :
    readUtf8? bytes = some string := by
  cases spells with
  | modified joined => exact readUtf8?_encodeJava joined
  | standard text => exact readUtf8?_utf8EncodeChar text

/-! ## No byte is zero -/

/-- A unit has no zero byte: the NUL is one of those that take two bytes. -/
theorem zero_notMem_encodeUnit {unit : Nat} (small : unit < 0x10000) : 0 ∉ encodeUnit unit := by
  have written {number : Nat} (positive : 0 < number) (byte : number < 0x100) :
      (0 : UInt8) ≠ UInt8.ofNat number := by
    rw [Ne, eq_iff_toNat, toNat_ofNat byte]
    exact Nat.ne_of_lt positive
  by_cases one : 0 < unit ∧ unit < 0x80
  · rw [encodeUnit_one one.1 one.2, List.mem_singleton]
    exact written one.1 (by omega)
  by_cases two : unit < 0x800
  · rw [encodeUnit_two one two, List.mem_cons, List.mem_singleton, not_or]
    exact ⟨written (by omega) (by omega), written (by omega) (by omega)⟩
  · rw [encodeUnit_three (by omega), List.mem_cons, List.mem_cons, List.mem_singleton, not_or,
      not_or]
    exact ⟨written (by omega) (by omega), written (by omega) (by omega),
      written (by omega) (by omega)⟩

theorem zero_notMem_encodeJava (string : JavaString) : 0 ∉ encodeJava string := by
  intro member
  obtain ⟨unit, among, here⟩ := List.mem_flatMap.mp member
  exact zero_notMem_encodeUnit (units_lt string unit among) here

/-- **Every text is read back from its modified form, and no byte of that form is zero.**  What is
read has no surrogates left, so it is a text again, and the one that was written. -/
theorem modifiedUtf8_readBack (text : String) :
    readUtf8? (modifiedUtf8 text) = some (.ofString text) ∧
      (JavaString.ofString text).toString? = some text ∧ 0 ∉ modifiedUtf8 text :=
  ⟨(spells_modifiedUtf8 text).read, JavaString.toString?_ofString text,
    zero_notMem_encodeJava (.ofString text)⟩

/-- One character for each length, and the NUL, which takes two bytes. -/
example : modifiedUtf8 "a\x00é€😀" =
    [0x61, 0xc0, 0x80, 0xc3, 0xa9, 0xe2, 0x82, 0xac, 0xed, 0xa0, 0xbd, 0xed, 0xb8, 0x80] := by
  decide +kernel

end Text

end Bytescript
