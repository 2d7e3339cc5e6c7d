import Bytescript.Script.Name
import Bytescript.Proofs.Text.Utf8
import Mathlib.Algebra.Group.Nat.Defs
import Mathlib.Data.List.Chain

/-!
# Escaped names

The escape of a character says where it ends: it is a plain character, or it begins with an
underscore and the digit behind that tells how many characters follow.  Only a slash becomes an
underscore alone, and what comes behind it may then look like the rest of an escape.  So a name can
be read back from its escape, provided that none of the digits that go on with an escape comes right
behind a slash.  That is so for every name without slashes, and only names of classes have them.
-/

set_option autoImplicit false

namespace Bytescript

namespace Text

theorem hexDigit_inj : ∀ one < 16, ∀ other < 16, hexDigit one = hexDigit other → one = other := by
  decide

theorem length_hexDigits (width number : Nat) : (hexDigits width number).length = width := by
  induction width generalizing number with
  | zero => rfl
  | succ width ih => rw [hexDigits, List.length_append, ih, List.length_singleton]

theorem mem_hexDigits {width number : Nat} {char : Char} (member : char ∈ hexDigits width number) :
    ∃ digit < 16, char = hexDigit digit := by
  induction width generalizing number with
  | zero => cases member
  | succ width ih =>
    rw [hexDigits, List.mem_append, List.mem_singleton] at member
    rcases member with front | last
    · exact ih front
    · exact ⟨_, Nat.mod_lt _ (by decide), last⟩

/-- Digits of a fixed count determine the number. -/
theorem hexDigits_inj {width one other : Nat} (small : one < 16 ^ width)
    (small' : other < 16 ^ width) (same : hexDigits width one = hexDigits width other) :
    one = other := by
  induction width generalizing one other with
  | zero => omega
  | succ width ih =>
    rw [Nat.pow_succ] at small small'
    obtain ⟨front, last⟩ := List.append_inj' same rfl
    have high := ih (by omega) (by omega) front
    have low := hexDigit_inj _ (Nat.mod_lt _ (by decide)) _ (Nat.mod_lt _ (by decide))
      (List.singleton_inj.mp last)
    omega

end Text

namespace Script

open Text

/-! ## The escape of a character -/

/-- The escape of a unit of a character that has no shorter one. -/
def unitEscape (unit : Nat) : List Char := '_' :: '0' :: hexDigits 4 unit

/-- The characters that are escaped by their units. -/
def IsUnusual (char : Char) : Prop :=
  isPlain char = false ∧ char ≠ '/' ∧ char ≠ '_' ∧ char ≠ ';' ∧ char ≠ '['

theorem escapeNameChar_of_isUnusual {char : Char} (unusual : IsUnusual char) :
    escapeNameChar char = (CodePoint.ofChar char).units.flatMap unitEscape := by
  obtain ⟨plain, slash, underscore, semicolon, bracket⟩ := unusual
  simp only [escapeNameChar, plain, slash, underscore, semicolon, bracket, if_false,
    Bool.false_eq_true]
  rfl

/-- What the escape of a character may be, slashes apart. -/
theorem escapeNameChar_cases {char : Char} (whole : char ≠ '/') :
    (char ≠ '_' ∧ escapeNameChar char = [char]) ∨
    (char = '_' ∧ escapeNameChar char = ['_', '1']) ∨
    (char = ';' ∧ escapeNameChar char = ['_', '2']) ∨
    (char = '[' ∧ escapeNameChar char = ['_', '3']) ∨ IsUnusual char := by
  by_cases plain : isPlain char = true
  · refine .inl ⟨?_, if_pos plain⟩
    rintro rfl
    cases plain
  rw [Bool.not_eq_true] at plain
  by_cases underscore : char = '_'
  · subst underscore
    exact .inr (.inl ⟨rfl, rfl⟩)
  by_cases semicolon : char = ';'
  · subst semicolon
    exact .inr (.inr (.inl ⟨rfl, rfl⟩))
  by_cases bracket : char = '['
  · subst bracket
    exact .inr (.inr (.inr (.inl ⟨rfl, rfl⟩)))
  exact .inr (.inr (.inr (.inr ⟨plain, whole, underscore, semicolon, bracket⟩)))

/-- A character has one unit, or two that begin with a surrogate. -/
theorem units_cases (char : Char) :
    (∃ unit, (CodePoint.ofChar char).units = [unit] ∧ unit < 0x10000 ∧
      CodePoint.isSurrogate unit = false) ∨
    ∃ high low, (CodePoint.ofChar char).units = [high, low] ∧ high < 0x10000 ∧ low < 0x10000 ∧
      CodePoint.isSurrogate high = true := by
  have bound := (CodePoint.ofChar char).isLt
  have whole := CodePoint.not_isSurrogate_ofChar char
  rw [CodePoint.units]
  split
  next basic => exact .inl ⟨_, rfl, basic, whole⟩
  next above =>
    refine .inr ⟨_, _, rfl, by omega, by omega, ?_⟩
    simp only [CodePoint.isSurrogate, Bool.and_eq_true, decide_eq_true_eq]
    omega

/-- The units of a character determine it. -/
theorem eq_of_units_eq {one other : Char}
    (same : (CodePoint.ofChar one).units = (CodePoint.ofChar other).units) : one = other := by
  have joined (char : Char) :
      JavaString.pointsOfUnits (CodePoint.ofChar char).units = [CodePoint.ofChar char] := by
    have read := JavaString.pointsOfUnits_append (CodePoint.not_isSurrogate_ofChar char) []
    rwa [List.append_nil] at read
  have points : [CodePoint.ofChar one] = [CodePoint.ofChar other] := by
    rw [← joined one, ← joined other, same]
  have chars := congrArg CodePoint.toChar? (List.singleton_inj.mp points)
  rw [CodePoint.toChar?_ofChar, CodePoint.toChar?_ofChar] at chars
  exact Option.some.inj chars

/-! ## Reading back -/

variable {rest rest' : List Char}

theorem unitEscape_append_inj {one other : Nat} (small : one < 0x10000) (small' : other < 0x10000)
    (same : unitEscape one ++ rest = unitEscape other ++ rest') : one = other ∧ rest = rest' := by
  have lengths : (unitEscape one).length = (unitEscape other).length := by
    simp only [unitEscape, List.length_cons, length_hexDigits]
  obtain ⟨front, back⟩ := List.append_inj same lengths
  exact ⟨hexDigits_inj small small' (List.tail_eq_of_cons_eq (List.tail_eq_of_cons_eq front)), back⟩

/-- The escaped units of a character tell whether there is a second one: the first one is a
surrogate then. -/
theorem unitEscapes_append_inj {one other : Char}
    (same : (CodePoint.ofChar one).units.flatMap unitEscape ++ rest =
      (CodePoint.ofChar other).units.flatMap unitEscape ++ rest') :
    one = other ∧ rest = rest' := by
  rcases units_cases one with
      ⟨unit, units, small, whole⟩ | ⟨high, low, units, small, last, half⟩ <;>
    rcases units_cases other with
      ⟨unit', units', small', whole'⟩ | ⟨high', low', units', small', last', half'⟩ <;>
    simp only [units, units', List.flatMap_cons, List.flatMap_nil, List.append_nil,
      List.append_assoc] at same
  · obtain ⟨rfl, back⟩ := unitEscape_append_inj small small' same
    exact ⟨eq_of_units_eq (units.trans units'.symm), back⟩
  · obtain ⟨rfl, _⟩ := unitEscape_append_inj small small' same
    exact absurd half' (by simp [whole])
  · obtain ⟨rfl, _⟩ := unitEscape_append_inj small small' same
    exact absurd half (by simp [whole'])
  · obtain ⟨rfl, later⟩ := unitEscape_append_inj small small' same
    obtain ⟨rfl, back⟩ := unitEscape_append_inj last last' later
    exact ⟨eq_of_units_eq (units.trans units'.symm), back⟩

theorem exists_escape_of_isUnusual {char : Char} (unusual : IsUnusual char) :
    ∃ more, escapeNameChar char = '_' :: '0' :: more := by
  rw [escapeNameChar_of_isUnusual unusual]
  rcases units_cases char with ⟨unit, units, _⟩ | ⟨high, low, units, _⟩
  · exact ⟨_, by rw [units]; rfl⟩
  · exact ⟨_, by rw [units]; rfl⟩

/-- The escape of a character can be told from what follows it: whether it is plain shows in the
first place, and else the second place is different for each of the other kinds. -/
theorem escapeNameChar_append_inj {one other : Char} (whole : one ≠ '/') (whole' : other ≠ '/')
    (same : escapeNameChar one ++ rest = escapeNameChar other ++ rest') :
    one = other ∧ rest = rest' := by
  by_cases both : IsUnusual one ∧ IsUnusual other
  · rw [escapeNameChar_of_isUnusual both.1, escapeNameChar_of_isUnusual both.2] at same
    exact unitEscapes_append_inj same
  have begins {char : Char} (unusual : IsUnusual char) := exists_escape_of_isUnusual unusual
  rcases escapeNameChar_cases whole with
    ⟨plain, escape⟩ | ⟨rfl, escape⟩ | ⟨rfl, escape⟩ | ⟨rfl, escape⟩ | unusual <;>
  rcases escapeNameChar_cases whole' with
    ⟨plain', escape'⟩ | ⟨rfl, escape'⟩ | ⟨rfl, escape'⟩ | ⟨rfl, escape'⟩ | unusual' <;>
  grind

/-- The digits that go on with an escape behind its underscore. -/
def isEscapeDigit (char : Char) : Bool := char = '0' || char = '1' || char = '2' || char = '3'

/-- The escape of a character is the character, the underscore for the slash, or it goes on with a
digit behind an underscore. -/
theorem escapeNameChar_eq_or (char : Char) :
    (char ≠ '_' ∧ escapeNameChar char = [char]) ∨ (char = '/' ∧ escapeNameChar char = ['_']) ∨
      ∃ digit more, isEscapeDigit digit = true ∧ escapeNameChar char = '_' :: digit :: more := by
  by_cases slash : char = '/'
  · subst slash
    exact .inr (.inl ⟨rfl, rfl⟩)
  rcases escapeNameChar_cases slash with
    ⟨other, escape⟩ | ⟨rfl, escape⟩ | ⟨rfl, escape⟩ | ⟨rfl, escape⟩ | unusual
  · exact .inl ⟨other, escape⟩
  · exact .inr (.inr ⟨'1', [], rfl, escape⟩)
  · exact .inr (.inr ⟨'2', [], rfl, escape⟩)
  · exact .inr (.inr ⟨'3', [], rfl, escape⟩)
  · obtain ⟨more, escape⟩ := exists_escape_of_isUnusual unusual
    exact .inr (.inr ⟨'0', more, rfl, escape⟩)

theorem escapeNameChar_ne_nil (char : Char) : escapeNameChar char ≠ [] := by
  rcases escapeNameChar_eq_or char with ⟨_, escape⟩ | ⟨_, escape⟩ | ⟨_, _, _, escape⟩ <;>
    simp [escape]

theorem escapeName_append (front back : List Char) :
    escapeName (front ++ back) = escapeName front ++ escapeName back :=
  List.flatMap_append

/-- The characters of the property of a field. -/
theorem toList_fieldIdentifier (field : String) :
    (fieldIdentifier field).toList = "fld_".toList ++ escapeName field.toList :=
  String.toList_ofList

/-- Plain characters stand for themselves. -/
theorem escapeName_of_plain {name : List Char} (plain : ∀ char ∈ name, isPlain char = true) :
    escapeName name = name := by
  induction name with
  | nil => rfl
  | cons char rest ih =>
    obtain ⟨here, later⟩ := List.forall_mem_cons.mp plain
    have escape : escapeNameChar char = [char] := if_pos here
    rw [escapeName, List.flatMap_cons, escape, ← escapeName, ih later, List.singleton_append]

/-- Each slash of a name is followed by something that does not go on with an escape. -/
def KeepsSlashes (name : List Char) : Prop :=
  name.IsChain fun char next => char = '/' → isEscapeDigit next = false

theorem keepsSlashes_of_notMem {name : List Char} (whole : '/' ∉ name) : KeepsSlashes name :=
  List.isChain_iff_forall_rel_of_append_cons_cons.mpr fun {_ _ _ _} parts slash =>
    absurd (by simp [parts, slash]) whole

/-- Something may come behind a name if it may come behind a slash. -/
theorem KeepsSlashes.append {front back : List Char} (slashes : KeepsSlashes front)
    (slashes' : KeepsSlashes ('/' :: back)) : KeepsSlashes (front ++ back) :=
  List.IsChain.append slashes slashes'.tail fun _ _ _ here _ => slashes'.rel_head? here rfl

/-- The escape of a name begins with a digit only if the name begins with it. -/
theorem escapeName_ne_escapeDigit_cons {name more : List Char} {digit : Char}
    (isDigit : isEscapeDigit digit = true)
    (other : ∀ first ∈ name.head?, isEscapeDigit first = false) :
    escapeName name ≠ digit :: more := by
  intro same
  cases name with
  | nil => cases same
  | cons first rest =>
    rw [escapeName, List.flatMap_cons] at same
    rcases escapeNameChar_eq_or first with ⟨_, escape⟩ | ⟨_, escape⟩ | ⟨_, _, _, escape⟩ <;>
      rw [escape] at same <;> obtain ⟨rfl, _⟩ := List.cons.inj same
    · cases isDigit.symm.trans (other first rfl)
    · cases isDigit
    · cases isDigit

/-- A slash is told from any other character by what follows. -/
theorem escapeName_slash_cons_ne {char : Char} (slashes : KeepsSlashes ('/' :: rest))
    (whole : char ≠ '/') : escapeName ('/' :: rest) ≠ escapeName (char :: rest') := by
  intro same
  rw [escapeName, escapeName, List.flatMap_cons, List.flatMap_cons] at same
  rcases escapeNameChar_eq_or char with
    ⟨plain, escape⟩ | ⟨slash, _⟩ | ⟨digit, more, isDigit, escape⟩
  · rw [escape] at same
    exact plain (List.cons.inj same).1.symm
  · exact whole slash
  · rw [escape] at same
    exact escapeName_ne_escapeDigit_cons isDigit (fun first here => slashes.rel_head? here rfl)
      (List.cons.inj same).2

/-- **A name is determined by its escape, if no slash looks like the beginning of an escape.** -/
theorem escapeName_inj_of_keepsSlashes {one other : List Char} (slashes : KeepsSlashes one)
    (slashes' : KeepsSlashes other) (same : escapeName one = escapeName other) : one = other := by
  induction one generalizing other with
  | nil =>
    cases other with
    | nil => rfl
    | cons char other =>
      exact absurd (List.append_eq_nil_iff.mp same.symm).1 (escapeNameChar_ne_nil char)
  | cons char one ih =>
    cases other with
    | nil => exact absurd (List.append_eq_nil_iff.mp same).1 (escapeNameChar_ne_nil char)
    | cons char' other =>
      have step : char = char' ∧ escapeName one = escapeName other := by
        by_cases slash : char = '/' <;> by_cases slash' : char' = '/'
        · subst slash slash'
          exact ⟨rfl, (List.cons.inj same).2⟩
        · subst slash
          exact absurd same (escapeName_slash_cons_ne slashes slash')
        · subst slash'
          exact absurd same.symm (escapeName_slash_cons_ne slashes' slash)
        · exact escapeNameChar_append_inj slash slash' same
      have back : one = other := ih slashes.tail slashes'.tail step.2
      rw [step.1, back]

/-- A name without slashes is determined by its escape. -/
theorem escapeName_inj {one other : List Char} (whole : '/' ∉ one) (whole' : '/' ∉ other)
    (same : escapeName one = escapeName other) : one = other :=
  escapeName_inj_of_keepsSlashes (keepsSlashes_of_notMem whole) (keepsSlashes_of_notMem whole') same

end Script

end Bytescript
