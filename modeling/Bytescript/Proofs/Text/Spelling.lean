import Bytescript.Proofs.Text.Utf8
import Mathlib.Data.List.Chain

/-!
# What is read is spelled

Bytes are read as a string in no other way than that they spell it.  What is taken for standard
UTF-8 is the standard form of a text, and what is taken for the modified form consists of the forms
of units, none of which has a second form.  So the bytes can be written again from the string.

The units of the modified form are joined where they make a pair, and the standard form has no
surrogates at all.  Whatever is read therefore keeps no pair apart, and a surrogate among its points
is one without a partner.  Nothing else keeps a string from being a text.
-/

set_option autoImplicit false

namespace Bytescript

/-! ## Surrogates without a partner -/

namespace CodePoint

/-- A code point that is no surrogate is a character. -/
theorem exists_ofChar_eq {point : CodePoint} (whole : isSurrogate point.val = false) :
    ∃ char, ofChar char = point := by
  have valid : point.val.isValidChar := by
    have bound := point.isLt
    simp only [isSurrogate, Bool.and_eq_false_iff, decide_eq_false_iff_not] at whole
    simp only [Nat.isValidChar]
    omega
  exact ⟨.ofNatAux point.val valid, Fin.ext rfl⟩

/-- Two code points that are not the halves of a supplementary one. -/
def Apart (point next : CodePoint) : Prop :=
  ¬(isHighSurrogate point.val = true ∧ isLowSurrogate next.val = true)

theorem apart_of_not_isHighSurrogate {point : CodePoint} (next : CodePoint)
    (whole : isHighSurrogate point.val = false) : point.Apart next :=
  fun both => Bool.false_ne_true (whole.symm.trans both.1)

end CodePoint

namespace JavaString

open CodePoint

/-- Some surrogate of the string has no partner: it makes no pair with the point before it, nor
with the one behind it. -/
def HasLoneSurrogate (string : JavaString) : Prop :=
  ∃ before point after, string.points = before ++ point :: after ∧
    isSurrogate point.val = true ∧ (∀ previous ∈ before.getLast?, previous.Apart point) ∧
      ∀ next ∈ after.head?, point.Apart next

/-- No two halves of a supplementary code point stand next to each other. -/
def Joined (string : JavaString) : Prop := string.points.IsChain Apart

/-- A string is a text unless it has a surrogate. -/
theorem exists_ofString_or_surrogate (string : JavaString) :
    (∃ text, string = ofString text) ∨ ∃ point ∈ string.points, isSurrogate point.val = true := by
  by_cases whole : ∀ point ∈ string.points, isSurrogate point.val = false
  · left
    suffices spelled : ∃ chars : List Char, chars.map ofChar = string.points by
      obtain ⟨chars, points⟩ := spelled
      refine ⟨.ofList chars, congrArg mk ?_⟩
      rw [String.toList_ofList, points]
    obtain ⟨points⟩ := string
    induction points with
    | nil => exact ⟨[], rfl⟩
    | cons point points ih =>
      rw [List.forall_mem_cons] at whole
      obtain ⟨char, here⟩ := exists_ofChar_eq whole.1
      obtain ⟨chars, there⟩ := ih whole.2
      exact ⟨char :: chars, congrArg₂ List.cons here there⟩
  · right
    simpa using whole

theorem toString?_eq_none_of_surrogate {string : JavaString} {point : CodePoint}
    (member : point ∈ string.points) (surrogate : isSurrogate point.val = true) :
    string.toString? = none := by
  suffices none : string.points.mapM toChar? = none by rw [toString?, none]; rfl
  obtain ⟨points⟩ := string
  induction points with
  | nil => cases member
  | cons first points ih =>
    rw [List.mapM_cons]
    rcases List.mem_cons.mp member with rfl | later
    · rw [toChar?, if_pos surrogate]
      rfl
    · rw [ih later]
      cases first.toChar? <;> rfl

/-- The strings that are texts. -/
theorem toString?_eq_some {string : JavaString} {text : String} :
    string.toString? = some text ↔ string = ofString text := by
  constructor
  · intro spelled
    rcases exists_ofString_or_surrogate string with ⟨text', rfl⟩ | ⟨point, member, surrogate⟩
    · rw [toString?_ofString] at spelled
      rw [Option.some.inj spelled]
    · rw [toString?_eq_none_of_surrogate member surrogate] at spelled
      cases spelled
  · rintro rfl
    exact toString?_ofString text

/-- A string that keeps no pair apart is a text unless it has a lone surrogate. -/
theorem Joined.toString?_eq_none_iff {string : JavaString} (joined : string.Joined) :
    string.toString? = none ↔ string.HasLoneSurrogate := by
  constructor
  · intro none
    rcases exists_ofString_or_surrogate string with ⟨text, rfl⟩ | ⟨point, member, surrogate⟩
    · rw [toString?_ofString] at none
      cases none
    · obtain ⟨before, after, points⟩ := List.append_of_mem member
      have apart := joined
      rw [Joined, points, List.isChain_append, List.isChain_cons] at apart
      exact ⟨before, point, after, points, surrogate,
        fun previous last => apart.2.2 previous last point rfl, apart.2.1.1⟩
  · rintro ⟨before, point, after, points, surrogate, -, -⟩
    exact toString?_eq_none_of_surrogate (points ▸ List.mem_append_cons_self) surrogate

/-! ## Joining units -/

/-- The code point of a pair has the two halves as its units. -/
theorem units_ofPair {high low : Nat} (isHigh : isHighSurrogate high = true)
    (isLow : isLowSurrogate low = true) : (ofPair high low).units = [high, low] := by
  simp only [isHighSurrogate, isLowSurrogate, Bool.and_eq_true, decide_eq_true_eq] at isHigh isLow
  have first : 0xd800 + ((ofPair high low).val - 0x10000) / 0x400 = high := by
    simp only [ofPair]
    omega
  have second : 0xdc00 + ((ofPair high low).val - 0x10000) % 0x400 = low := by
    simp only [ofPair]
    omega
  have above : ¬ (ofPair high low).val < 0x10000 := by
    simp only [ofPair]
    omega
  rw [CodePoint.units, if_neg above, first, second]

theorem isHighSurrogate_ofPair (high low : Nat) :
    isHighSurrogate (ofPair high low).val = false := by
  have above : 0x10000 ≤ (ofPair high low).val := by
    simp only [ofPair]
    omega
  refine Bool.eq_false_iff.mpr fun isHigh => ?_
  simp only [isHighSurrogate, Bool.and_eq_true, decide_eq_true_eq] at isHigh
  omega

/-- Joining loses no units. -/
theorem units_ofUnits {units : List Nat} (small : ∀ unit ∈ units, unit < 0x10000) :
    (ofUnits units).units = units := by
  have basic {unit : Nat} (fits : unit < 0x10000) :
      CodePoint.units ⟨unit % 0x10000, by omega⟩ = [unit] := by
    simp only [CodePoint.units, Nat.mod_eq_of_lt fits, if_pos fits]
  show (pointsOfUnits units).flatMap CodePoint.units = units
  fun_induction pointsOfUnits units with
  | case1 => rfl
  | case2 unit => rw [List.flatMap_singleton, basic (small unit List.mem_cons_self)]
  | case3 unit next rest pair ih =>
    obtain ⟨high, low⟩ := Bool.and_eq_true_iff.mp pair
    rw [List.forall_mem_cons, List.forall_mem_cons] at small
    rw [List.flatMap_cons, units_ofPair high low, ih small.2.2]
    rfl
  | case4 unit next rest _ ih =>
    rw [List.forall_mem_cons] at small
    rw [List.flatMap_cons, basic small.1, ih small.2]
    rfl

/-- A low surrogate is only read first if it comes first. -/
theorem head?_of_isLowSurrogate {units : List Nat} {point : CodePoint}
    (small : ∀ unit ∈ units, unit < 0x10000) (first : point ∈ (pointsOfUnits units).head?)
    (low : isLowSurrogate point.val = true) : units.head? = some point.val := by
  obtain ⟨points, all⟩ := List.head?_eq_some_iff.mp first
  have basic : point.val < 0x10000 := by
    simp only [isLowSurrogate, Bool.and_eq_true, decide_eq_true_eq] at low
    omega
  have same : (pointsOfUnits units).flatMap CodePoint.units = units := units_ofUnits small
  rw [← same, all, List.flatMap_cons, CodePoint.units, if_pos basic]
  rfl

/-- Joining keeps no pair apart. -/
theorem joined_ofUnits {units : List Nat} (small : ∀ unit ∈ units, unit < 0x10000) :
    (ofUnits units).Joined := by
  show (pointsOfUnits units).IsChain Apart
  fun_induction pointsOfUnits units with
  | case1 => exact .nil
  | case2 unit => exact .singleton _
  | case3 unit next rest _ ih =>
    rw [List.forall_mem_cons, List.forall_mem_cons] at small
    exact List.isChain_cons.mpr
      ⟨fun point _ => apart_of_not_isHighSurrogate point (isHighSurrogate_ofPair unit next),
        ih small.2.2⟩
  | case4 unit next rest apart ih =>
    rw [List.forall_mem_cons] at small
    refine List.isChain_cons.mpr ⟨fun point first both => apart ?_, ih small.2⟩
    have same : next = point.val :=
      Option.some.inj (head?_of_isLowSurrogate small.2 first both.2)
    rw [Bool.and_eq_true_iff, same, ← Nat.mod_eq_of_lt small.1]
    exact both

theorem joined_ofString (text : String) : (ofString text).Joined := by
  rw [← ofUnits_units_ofString]
  exact joined_ofUnits (Text.units_lt _)

end JavaString

/-! ## What is read -/

namespace Text

section Bytes

variable {first second third fourth : UInt8}

theorem ofNat_eq {number : Nat} {byte : UInt8} (same : number = byte.toNat) :
    UInt8.ofNat number = byte := by
  rw [same, UInt8.ofNat_toNat]

/-- A continuation byte is what its six bits are written as. -/
theorem toNat_of_isContinuation {byte : UInt8} (continued : isContinuation byte = true) :
    byte.toNat = 0x80 + continuationBits byte ∧ continuationBits byte < 0x40 := by
  simp only [isContinuation, between, Bool.and_eq_true, decide_eq_true_eq] at continued
  simp only [continuationBits]
  omega

/-- Two bytes that are read as a unit are its form. -/
theorem encodeUnit_of_two (two : 0xc2 ≤ first.toNat ∧ first.toNat ≤ 0xdf)
    (continued : isContinuation second = true) :
    encodeUnit (first.toNat % 0x20 * 0x40 + continuationBits second) = [first, second] := by
  have rest := toNat_of_isContinuation continued
  generalize number : first.toNat % 0x20 * 0x40 + continuationBits second = unit
  have here : UInt8.ofNat (0xc0 + unit / 0x40) = first := ofNat_eq (by omega)
  have there : UInt8.ofNat (0x80 + unit % 0x40) = second := ofNat_eq (by omega)
  rw [encodeUnit_two (by omega) (by omega), here, there]

/-- Three bytes that are read as a unit are its form. -/
theorem encodeUnit_of_three (three : 0xe0 ≤ first.toNat ∧ first.toNat ≤ 0xef)
    (least : first.toNat = 0xe0 → 0xa0 ≤ second.toNat)
    (continued : isContinuation second = true) (continued' : isContinuation third = true) :
    encodeUnit (first.toNat % 0x10 * 0x1000 + continuationBits second * 0x40
      + continuationBits third) = [first, second, third] := by
  have rest := toNat_of_isContinuation continued
  have rest' := toNat_of_isContinuation continued'
  generalize number : first.toNat % 0x10 * 0x1000 + continuationBits second * 0x40
    + continuationBits third = unit
  have one : UInt8.ofNat (0xe0 + unit / 0x1000) = first := ofNat_eq (by omega)
  have two : UInt8.ofNat (0x80 + unit / 0x40 % 0x40) = second := ofNat_eq (by omega)
  have three : UInt8.ofNat (0x80 + unit % 0x40) = third := ofNat_eq (by omega)
  rw [encodeUnit_three (by omega), one, two, three]

end Bytes

/-- What is read as units consists of their modified forms. -/
theorem eq_flatMap_of_decodeUnits {bytes : List UInt8} {units : List Nat}
    (read : decodeUnits bytes = some units) :
    bytes = units.flatMap encodeUnit ∧ ∀ unit ∈ units, unit < 0x10000 := by
  have spelled {part rest : List UInt8} {unit : Nat} {units : List Nat}
      (form : encodeUnit unit = part) (small : unit < 0x10000)
      (others : ∀ {units : List Nat}, decodeUnits rest = some units →
        rest = units.flatMap encodeUnit ∧ ∀ unit ∈ units, unit < 0x10000)
      (read : (decodeUnits rest).map (unit :: ·) = some units) :
      part ++ rest = units.flatMap encodeUnit ∧ ∀ unit ∈ units, unit < 0x10000 := by
    obtain ⟨units, later, rfl⟩ := Option.map_eq_some_iff.mp read
    obtain ⟨rfl, smalls⟩ := others later
    exact ⟨by rw [List.flatMap_cons, form], List.forall_mem_cons.mpr ⟨small, smalls⟩⟩
  fun_induction decodeUnits bytes generalizing units with
  | case1 =>
    cases read
    exact ⟨rfl, List.forall_mem_nil _⟩
  | case2 first rest ascii ih =>
    simp only [between, Bool.and_eq_true, decide_eq_true_eq] at ascii
    refine @spelled [first] rest _ _ ?_ (by omega) ih read
    rw [encodeUnit_one (by omega) (by omega), UInt8.ofNat_toNat]
  | case3 rest _ ih => exact @spelled [0xc0, 0x80] rest _ _ rfl (by decide) ih read
  | case6 first _ _ range second rest continued ih =>
    simp only [between, Bool.and_eq_true, decide_eq_true_eq] at range
    have bits := toNat_of_isContinuation continued
    exact spelled (encodeUnit_of_two range continued) (by omega) ih read
  | case9 first _ _ _ range second third rest continued ih =>
    obtain ⟨range', continued'⟩ := Bool.and_eq_true_iff.mp continued
    simp only [between, Bool.and_eq_true, decide_eq_true_eq] at range
    obtain ⟨continues, least⟩ : isContinuation second = true ∧
        (first.toNat = 0xe0 → 0xa0 ≤ second.toNat) := by
      simp only [isContinuation, between, eq_iff_toNat, UInt8.reduceToNat] at range' ⊢
      split at range' <;> simp only [Bool.and_eq_true, decide_eq_true_eq] at range' ⊢ <;> omega
    have bits := toNat_of_isContinuation continues
    have bits' := toNat_of_isContinuation continued'
    exact spelled (encodeUnit_of_three range least continues continued') (by omega) ih read
  | case4 | case5 | case7 | case8 | case10 | case11 | case12 => cases read

/-! ## The standard form -/

section Tails

variable {first : UInt8}

/-- Only some bytes begin a character of several bytes. -/
theorem range_of_standardTail {tail : Nat × Nat × Nat} (begins : standardTail first = some tail) :
    (0xc2 ≤ first.toNat ∧ first.toNat ≤ 0xdf) ∨ (0xe0 ≤ first.toNat ∧ first.toNat ≤ 0xef) ∨
      (0xf0 ≤ first.toNat ∧ first.toNat ≤ 0xf4) := by
  simp only [standardTail, between, eq_iff_toNat, UInt8.reduceToNat, Bool.and_eq_true,
    decide_eq_true_eq] at begins
  grind

/-- How many bytes follow the first one, and the range of the second. -/
theorem standardTail_cases {tail : Nat × Nat × Nat} (begins : standardTail first = some tail) :
    ((0xc2 ≤ first.toNat ∧ first.toNat ≤ 0xdf) ∧ tail = (1, 0x80, 0xbf)) ∨
      ((0xe0 ≤ first.toNat ∧ first.toNat ≤ 0xef) ∧
        tail = (2, if first.toNat = 0xe0 then 0xa0 else 0x80,
          if first.toNat = 0xed then 0x9f else 0xbf)) ∨
        ((0xf0 ≤ first.toNat ∧ first.toNat ≤ 0xf4) ∧
          tail = (3, if first.toNat = 0xf0 then 0x90 else 0x80,
            if first.toNat = 0xf4 then 0x8f else 0xbf)) := by
  rcases range_of_standardTail begins with two | three | four
  · rw [standardTail_two two.1 two.2] at begins
    exact .inl ⟨two, (Option.some.inj begins).symm⟩
  · rw [standardTail_three three.1 three.2] at begins
    exact .inr (.inl ⟨three, (Option.some.inj begins).symm⟩)
  · rw [standardTail_four four.1 four.2] at begins
    exact .inr (.inr ⟨four, (Option.some.inj begins).symm⟩)

end Tails

/-- The second byte of a character is a continuation byte, in a range that may be narrower. -/
theorem continues_of_between {second : UInt8} {least greatest : Nat} {lowest highest : Prop}
    [Decidable lowest] [Decidable highest] (low : 0x80 ≤ least) (high : greatest ≤ 0xbf)
    (range : between (if lowest then least else 0x80) (if highest then greatest else 0xbf) second
      = true) :
    isContinuation second = true ∧ (lowest → least ≤ second.toNat) ∧
      (highest → second.toNat ≤ greatest) := by
  simp only [isContinuation, between, Bool.and_eq_true, decide_eq_true_eq] at range ⊢
  split at range <;> split at range <;> grind

/-! ## Characters of the standard form -/

/-- Bytes that are the standard form of a code point, which is a character. -/
def IsForm (part : List UInt8) (point : CodePoint) : Prop :=
  ∃ char, CodePoint.ofChar char = point ∧ String.utf8EncodeChar char = part

theorem isForm_of {part : List UInt8} {point : CodePoint}
    (whole : CodePoint.isSurrogate point.val = false)
    (form : ∀ char : Char, char.val.toNat = point.val → String.utf8EncodeChar char = part) :
    IsForm part point := by
  obtain ⟨char, rfl⟩ := CodePoint.exists_ofChar_eq whole
  exact ⟨char, rfl, form char rfl⟩

section Forms

variable {first second third fourth : UInt8} {point : CodePoint}

theorem isForm_one (ascii : first.toNat < 0x80) (value : point.val = first.toNat) :
    IsForm [first] point := by
  refine isForm_of ?_ fun char same => ?_
  · simp only [CodePoint.isSurrogate, Bool.and_eq_false_iff, decide_eq_false_iff_not]
    omega
  · simp only [String.utf8EncodeChar, same, value]
    rw [if_pos (by omega)]
    exact congrArg (fun byte => [byte]) UInt8.ofNat_toNat

theorem isForm_two (two : 0xc2 ≤ first.toNat ∧ first.toNat ≤ 0xdf)
    (continued : isContinuation second = true)
    (value : point.val = first.toNat % 0x20 * 0x40 + continuationBits second) :
    IsForm [first, second] point := by
  have bits := toNat_of_isContinuation continued
  refine isForm_of ?_ fun char same => ?_
  · simp only [CodePoint.isSurrogate, Bool.and_eq_false_iff, decide_eq_false_iff_not]
    omega
  · rw [utf8EncodeChar_eq_encodeUnit (by omega) (by omega), same, value,
      encodeUnit_of_two two continued]

theorem isForm_three (three : 0xe0 ≤ first.toNat ∧ first.toNat ≤ 0xef)
    (least : first.toNat = 0xe0 → 0xa0 ≤ second.toNat)
    (greatest : first.toNat = 0xed → second.toNat ≤ 0x9f)
    (continued : isContinuation second = true) (continued' : isContinuation third = true)
    (value : point.val = first.toNat % 0x10 * 0x1000 + continuationBits second * 0x40
      + continuationBits third) : IsForm [first, second, third] point := by
  have bits := toNat_of_isContinuation continued
  have bits' := toNat_of_isContinuation continued'
  refine isForm_of ?_ fun char same => ?_
  · simp only [CodePoint.isSurrogate, Bool.and_eq_false_iff, decide_eq_false_iff_not]
    omega
  · rw [utf8EncodeChar_eq_encodeUnit (by omega) (by omega), same, value,
      encodeUnit_of_three three least continued continued']

theorem isForm_four (four : 0xf0 ≤ first.toNat ∧ first.toNat ≤ 0xf4)
    (least : first.toNat = 0xf0 → 0x90 ≤ second.toNat)
    (continued : isContinuation second = true) (continued' : isContinuation third = true)
    (continued'' : isContinuation fourth = true)
    (value : point.val = first.toNat % 0x08 * 0x40000 + continuationBits second * 0x1000
      + continuationBits third * 0x40 + continuationBits fourth) :
    IsForm [first, second, third, fourth] point := by
  have bits := toNat_of_isContinuation continued
  have bits' := toNat_of_isContinuation continued'
  have bits'' := toNat_of_isContinuation continued''
  refine isForm_of ?_ fun char same => ?_
  · simp only [CodePoint.isSurrogate, Bool.and_eq_false_iff, decide_eq_false_iff_not]
    omega
  · simp only [String.utf8EncodeChar, same]
    generalize point.val = number at *
    have one : UInt8.ofNat (number / 0x40000 % 0x8 + 0xf0) = first := ofNat_eq (by omega)
    have two : UInt8.ofNat (number / 0x1000 % 0x40 + 0x80) = second := ofNat_eq (by omega)
    have three : UInt8.ofNat (number / 0x40 % 0x40 + 0x80) = third := ofNat_eq (by omega)
    have four : UInt8.ofNat (number % 0x40 + 0x80) = fourth := ofNat_eq (by omega)
    rw [if_neg (by omega), if_neg (by omega), if_neg (by omega)]
    show [UInt8.ofNat _, UInt8.ofNat _, UInt8.ofNat _, UInt8.ofNat _] = _
    rw [one, two, three, four]

end Forms

/-- What is read as standard UTF-8 is the standard form of characters. -/
theorem eq_flatMap_of_decodeStandard {bytes : List UInt8} {points : List CodePoint}
    (read : decodeStandard bytes = some points) :
    ∃ chars : List Char, points = chars.map CodePoint.ofChar ∧
      bytes = chars.flatMap String.utf8EncodeChar := by
  have spelled {part rest : List UInt8} {point : CodePoint} {points : List CodePoint}
      (form : IsForm part point)
      (others : ∀ {points : List CodePoint}, decodeStandard rest = some points →
        ∃ chars : List Char, points = chars.map CodePoint.ofChar ∧
          rest = chars.flatMap String.utf8EncodeChar)
      (read : (decodeStandard rest).map (point :: ·) = some points) :
      ∃ chars : List Char, points = chars.map CodePoint.ofChar ∧
        part ++ rest = chars.flatMap String.utf8EncodeChar := by
    obtain ⟨points, later, rfl⟩ := Option.map_eq_some_iff.mp read
    obtain ⟨chars, rfl, rfl⟩ := others later
    obtain ⟨char, rfl, rfl⟩ := form
    exact ⟨char :: chars, rfl, rfl⟩
  fun_induction decodeStandard bytes generalizing points with
  | case1 =>
    cases read
    exact ⟨[], rfl, rfl⟩
  | case2 first rest ascii ih => exact spelled (isForm_one ascii (Nat.mod_eq_of_lt ascii)) ih read
  | case3 first _ low high second rest begins continued ih =>
    rcases standardTail_cases begins with ⟨two, same⟩ | ⟨-, same⟩ | ⟨-, same⟩ <;> cases same
    exact spelled (isForm_two two continued rfl) ih read
  | case5 first _ low high second third rest begins range ih =>
    rcases standardTail_cases begins with ⟨-, same⟩ | ⟨three, same⟩ | ⟨-, same⟩ <;> cases same
    obtain ⟨range, continued'⟩ := Bool.and_eq_true_iff.mp range
    obtain ⟨continued, least, greatest⟩ := continues_of_between (by decide) (by decide) range
    exact spelled (isForm_three three least greatest continued continued' rfl) ih read
  | case7 first _ low high second third fourth rest begins range ih =>
    rcases standardTail_cases begins with ⟨-, same⟩ | ⟨-, same⟩ | ⟨four, same⟩ <;> cases same
    obtain ⟨both, continued''⟩ := Bool.and_eq_true_iff.mp range
    obtain ⟨range, continued'⟩ := Bool.and_eq_true_iff.mp both
    obtain ⟨continued, least, greatest⟩ := continues_of_between (by decide) (by decide) range
    have bits := toNat_of_isContinuation continued
    have bits' := toNat_of_isContinuation continued'
    have bits'' := toNat_of_isContinuation continued''
    -- The greatest second byte keeps the number below the end of the code points.
    have value : (first.toNat % 0x08 * 0x40000 + continuationBits second * 0x1000
        + continuationBits third * 0x40 + continuationBits fourth) % 0x110000 = _ :=
      Nat.mod_eq_of_lt (by omega)
    exact spelled (isForm_four four least continued continued' continued'' value) ih read
  | case4 | case6 | case8 | case9 => cases read

/-! ## Strings -/

/-- **Bytes are read as exactly the string that they spell.** -/
theorem readUtf8?_eq_some {bytes : List UInt8} {string : JavaString} :
    readUtf8? bytes = some string ↔ Spells bytes string := by
  refine ⟨fun read => ?_, Spells.read⟩
  rw [readUtf8?] at read
  split at read
  next points standard =>
    cases read
    obtain ⟨chars, rfl, rfl⟩ := eq_flatMap_of_decodeStandard standard
    have spelled := Spells.standard (String.ofList chars)
    rwa [JavaString.ofString, String.toList_ofList] at spelled
  next =>
    obtain ⟨units, modified, rfl⟩ := Option.map_eq_some_iff.mp read
    obtain ⟨rfl, small⟩ := eq_flatMap_of_decodeUnits modified
    have same : (JavaString.ofUnits units).units = units := JavaString.units_ofUnits small
    have spelled : Spells (encodeJava (.ofUnits units)) (.ofUnits units) :=
      .modified (by rw [same])
    rwa [encodeJava, same] at spelled

/-- A string that is spelled by bytes keeps no pair of surrogates apart. -/
theorem Spells.joined {bytes : List UInt8} {string : JavaString} (spells : Spells bytes string) :
    string.Joined := by
  cases spells with
  | modified joined =>
    rw [← joined]
    exact JavaString.joined_ofUnits (units_lt string)
  | standard text => exact JavaString.joined_ofString text

end Text

end Bytescript
