import Bytescript.Proofs.Script.Names
import Bytescript.Proofs.Script.References
import Bytescript.Proofs.Script.StringLiteral
import Bytescript.Proofs.Script.TextLines

/-!
# The functions that a line of code calls

A line of code calls a function of the support library where the name of the library stands as a
word of its own, and behind it a point, the name of the function, and a parenthesis.  What stands in
a string literal is not code.  A scanner that reads a line from left to right only has to remember
the word that it is in.

What is written for an expression calls the functions that the expression refers to and no others,
whatever classes, members and constants it names, and it is always a single line.
-/

set_option autoImplicit false

namespace Bytescript.Script

open Support.Mention (isNameChar)

/-! ## The scanner -/

/-- The name of the support library. -/
def libraryName : List Char := ['$', 'v', 'm']

/-- Where a scanner stands. -/
inductive Place where
  /-- Outside of words and literals. -/
  | between
  /-- In a word or at its end. -/
  | word (read : List Char)
  /-- In a word behind the name of the library and a point, or at its end. -/
  | function (read : List Char)
  | literal
  /-- Behind a backslash in a literal. -/
  | escape
  deriving DecidableEq

namespace Place

/-- Where the scanner stands after one more character. -/
def next : Place → Char → Place
  | literal, char => if char = '"' then between else if char = '\\' then escape else literal
  | escape, _ => literal
  | between, char =>
    if char = '"' then literal else if isNameChar char then word [char] else between
  | word read, char =>
    if char = '"' then literal
    else if isNameChar char then word (read ++ [char])
    else if char = '.' ∧ read = libraryName then function []
    else between
  | function read, char =>
    if char = '"' then literal
    else if isNameChar char then function (read ++ [char])
    else between

/-- The name of the function whose call begins with a character. -/
def called? : Place → Char → Option (List Char)
  | function read, char => if char = '(' then some read else none
  | between, _ | word _, _ | literal, _ | escape, _ => none

end Place

/-- The names of the functions that characters call, from a place on. -/
def calledFrom : Place → List Char → List (List Char)
  | _, [] => []
  | place, char :: rest => (place.called? char).toList ++ calledFrom (place.next char) rest

/-- The names of the functions of the support library that a line of code calls. -/
def calledIn (line : String) : List (List Char) := calledFrom .between line.toList

theorem calledFrom_append (place : Place) (chars more : List Char) :
    calledFrom place (chars ++ more) =
      calledFrom place chars ++ calledFrom (chars.foldl Place.next place) more := by
  induction chars generalizing place with
  | nil => rfl
  | cons char rest ih =>
    rw [List.cons_append, calledFrom, ih, calledFrom, List.foldl_cons, List.append_assoc]

/-! ## Reading a text -/

variable {allowed : List Char → Prop} {place first middle last : Place} {text more : String}

/-- A text leads the scanner from one place to another.  It only calls functions that are allowed,
and no line ends in it. -/
structure Leads (allowed : List Char → Prop) (first : Place) (text : String) (last : Place) :
    Prop where
  calls : ∀ name ∈ calledFrom first text.toList, allowed name
  ends : text.toList.foldl Place.next first = last
  oneLine : OneLine text

theorem Leads.append (one : Leads allowed first text middle)
    (two : Leads allowed middle more last) : Leads allowed first (text ++ more) last where
  calls := by
    rw [String.toList_append, calledFrom_append, one.ends]
    exact List.forall_mem_append.mpr ⟨one.calls, two.calls⟩
  ends := by rw [String.toList_append, List.foldl_append, one.ends, two.ends]
  oneLine := oneLine_append.mpr ⟨one.oneLine, two.oneLine⟩

/-- A text that is written as it stands and calls nothing. -/
theorem Leads.fixed (checked : (calledFrom first text.toList = [] ∧
    text.toList.foldl Place.next first = last) ∧ OneLine text) :
    Leads allowed first text last :=
  ⟨by simp [checked.1.1], checked.1.2, checked.2⟩

namespace Place

/-- The scanner is not in a literal. -/
def IsOpen : Place → Prop
  | between | word _ | function _ => True
  | literal | escape => False

/-- The scanner is not in a literal, and not behind the name of the library either. -/
def IsQuiet : Place → Prop
  | between | function _ => True
  | word read => read ≠ libraryName
  | literal | escape => False

theorem IsQuiet.isOpen (quiet : place.IsQuiet) : place.IsOpen := by
  cases place <;> trivial

/-- Whether a character ends any word. -/
def isSign (char : Char) : Bool := !isNameChar char && char ≠ '"' && char ≠ '(' && char ≠ '.'

/-- A sign reads the same at the end of a word and outside of words. -/
theorem IsOpen.leads (isOpen : place.IsOpen) (begins : text.toList.head?.any isSign = true)
    (reads : Leads allowed .between text last) : Leads allowed place text last := by
  obtain ⟨char, first, sign⟩ := (Option.any_eq_true _ _).mp begins
  obtain ⟨rest, chars⟩ := List.head?_eq_some_iff.mp first
  simp only [isSign, Bool.and_eq_true, Bool.not_eq_true', decide_eq_true_eq] at sign
  obtain ⟨⟨⟨noName, noQuote⟩, noCall⟩, noPoint⟩ := sign
  have same : place.next char = between ∧ place.called? char = none := by
    cases place with
    | between | word | function => simp [next, called?, noName, noQuote, noCall, noPoint]
    | literal | escape => exact isOpen.elim
  have start : between.next char = between := by simp [next, noName, noQuote]
  obtain ⟨calls, ends, oneLine⟩ := reads
  rw [chars, calledFrom, start] at calls
  rw [chars, List.foldl_cons, start] at ends
  refine ⟨?_, ?_, oneLine⟩
  · rw [chars, calledFrom, same.1, same.2]
    exact calls
  · rw [chars, List.foldl_cons, same.1, ends]

/-- So does a point, unless it stands behind the name of the library. -/
theorem IsQuiet.leads (quiet : place.IsQuiet) (begins : text.toList.head? = some '.')
    (reads : Leads allowed .between text last) : Leads allowed place text last := by
  obtain ⟨rest, chars⟩ := List.head?_eq_some_iff.mp begins
  have same : place.next '.' = between ∧ place.called? '.' = none := by
    cases place with
    | between | function => exact ⟨rfl, rfl⟩
    | word read => exact ⟨if_neg fun both => quiet both.2, rfl⟩
    | literal | escape => exact quiet.elim
  obtain ⟨calls, ends, oneLine⟩ := reads
  rw [chars, calledFrom] at calls
  rw [chars, List.foldl_cons] at ends
  refine ⟨?_, ?_, oneLine⟩
  · rw [chars, calledFrom, same.1, same.2]
    exact calls
  · rw [chars, List.foldl_cons, same.1]
    exact ends

end Place

/-! ## Words -/

/-- The place behind a word. -/
def Place.ofWord : List Char → Place
  | [] => between
  | first :: rest => word (first :: rest)

namespace Place

theorem isOpen_ofWord (chars : List Char) : (ofWord chars).IsOpen := by
  cases chars <;> trivial

theorem isQuiet_ofWord {chars : List Char} (other : chars ≠ libraryName) :
    (ofWord chars).IsQuiet := by
  cases chars with
  | nil => trivial
  | cons first rest => exact other

/-- A parenthesis behind a word does not call a function of the library. -/
theorem leads_ofWord (chars : List Char) (begins : text.toList.head? = some '(')
    (reads : Leads allowed .between text last) : Leads allowed (ofWord chars) text last := by
  obtain ⟨rest, written⟩ := List.head?_eq_some_iff.mp begins
  have same : (ofWord chars).next '(' = between ∧ (ofWord chars).called? '(' = none := by
    cases chars <;> exact ⟨rfl, rfl⟩
  obtain ⟨calls, ends, oneLine⟩ := reads
  rw [written, calledFrom] at calls
  rw [written, List.foldl_cons] at ends
  refine ⟨?_, ?_, oneLine⟩
  · rw [written, calledFrom, same.1, same.2]
    exact calls
  · rw [written, List.foldl_cons, same.1]
    exact ends

end Place

/-- Characters of names are added to the word that the scanner is in. -/
theorem calledFrom_of_continues {within : List Char → Place} {chars : List Char}
    (continues : ∀ read char, isNameChar char = true →
      (within read).called? char = none ∧ (within read).next char = within (read ++ [char]))
    (name : ∀ char ∈ chars, isNameChar char = true) (read : List Char) :
    calledFrom (within read) chars = [] ∧
      chars.foldl Place.next (within read) = within (read ++ chars) := by
  induction chars generalizing read with
  | nil => simp [calledFrom]
  | cons char rest ih =>
    obtain ⟨here, later⟩ := List.forall_mem_cons.mp name
    obtain ⟨silent, next⟩ := continues read char here
    obtain ⟨calls, ends⟩ := ih later (read ++ [char])
    rw [calledFrom, List.foldl_cons, silent, next, calls, ends, List.append_assoc]
    exact ⟨rfl, rfl⟩

theorem ne_quote_of_isNameChar {char : Char} (name : isNameChar char = true) : char ≠ '"' := by
  rintro rfl
  cases name

theorem leads_word (name : ∀ char ∈ text.toList, isNameChar char = true) :
    Leads allowed .between text (.ofWord text.toList) := by
  have oneLine := oneLine_of_isNameChar name
  cases chars : text.toList with
  | nil => exact .fixed ⟨⟨by rw [chars]; rfl, by rw [chars]; rfl⟩, oneLine⟩
  | cons char rest =>
    obtain ⟨here, later⟩ := List.forall_mem_cons.mp (chars ▸ name)
    have next : Place.between.next char = .word [char] := by
      simp [Place.next, ne_quote_of_isNameChar here, here]
    have continues (read : List Char) (char : Char) (name : isNameChar char = true) :
        (Place.word read).called? char = none ∧
          (Place.word read).next char = .word (read ++ [char]) :=
      ⟨rfl, by simp [Place.next, ne_quote_of_isNameChar name, name]⟩
    obtain ⟨calls, ends⟩ := calledFrom_of_continues continues later [char]
    refine .fixed ⟨⟨?_, ?_⟩, oneLine⟩
    · rw [chars, calledFrom, next, calls]
      rfl
    · rw [chars, List.foldl_cons, next, ends]
      rfl

/-- A word behind the name of the library and a point. -/
theorem leads_function (name : ∀ char ∈ text.toList, isNameChar char = true) :
    Leads allowed (.function []) text (.function text.toList) := by
  have continues (read : List Char) (char : Char) (name : isNameChar char = true) :
      (Place.function read).called? char = none ∧
        (Place.function read).next char = .function (read ++ [char]) := by
    have noCall : char ≠ '(' := by
      rintro rfl
      cases name
    simp [Place.called?, Place.next, noCall, ne_quote_of_isNameChar name, name]
  exact .fixed ⟨calledFrom_of_continues continues name [], oneLine_of_isNameChar name⟩

/-! ## Texts without names of the library -/

/-- Whether a character may stand in a text that only holds words and signs without a meaning. -/
def isBare (char : Char) : Bool := char ≠ '$' && char ≠ '"' && !isLineEnd char

/-- A text without dollar signs, literals and ends of lines. -/
def IsBare (text : String) : Prop := ∀ char ∈ text.toList, isBare char = true

instance (text : String) : Decidable (IsBare text) :=
  inferInstanceAs (Decidable (∀ char ∈ text.toList, isBare char = true))

@[simp] theorem isBare_append : IsBare (text ++ more) ↔ IsBare text ∧ IsBare more := by
  rw [IsBare, String.toList_append, List.forall_mem_append]
  exact Iff.rfl

theorem isBare_of_isDigit {char : Char} (digit : char.isDigit = true) : isBare char = true := by
  have other : ∀ sign ∈ ['$', '"', '\n', '\r', '\u2028', '\u2029'], sign.isDigit = false := by
    decide
  by_contra special
  have listed : char ∈ ['$', '"', '\n', '\r', '\u2028', '\u2029'] := by
    simp only [isBare, isLineEnd, Bool.and_eq_true, decide_eq_true_eq, Bool.not_eq_true',
      Bool.or_eq_false_iff, decide_eq_false_iff_not] at special
    simp only [List.mem_cons, List.not_mem_nil, or_false]
    tauto
  cases digit.symm.trans (other char listed)

@[simp] theorem isBare_toString (number : Nat) : IsBare (toString number) := by
  intro char member
  rw [Nat.toString_eq_ofList_toDigits, String.toList_ofList] at member
  exact isBare_of_isDigit (Nat.isDigit_of_mem_toDigits (by decide) (by decide) member)

namespace Place

/-- The scanner is outside of words, or in a word without a dollar sign. -/
def IsPlain : Place → Prop
  | between => True
  | word read => '$' ∉ read
  | function _ | literal | escape => False

theorem IsPlain.isQuiet (plain : place.IsPlain) : place.IsQuiet := by
  cases place with
  | between => trivial
  | word read =>
    rintro rfl
    exact plain (by decide)
  | function | literal | escape => exact plain.elim

theorem IsPlain.next {char : Char} (plain : place.IsPlain) (bare : isBare char = true) :
    place.called? char = none ∧ (place.next char).IsPlain := by
  simp only [isBare, Bool.and_eq_true, decide_eq_true_eq] at bare
  obtain ⟨⟨noDollar, noQuote⟩, -⟩ := bare
  cases place with
  | between =>
    refine ⟨rfl, ?_⟩
    rw [Place.next, if_neg noQuote]
    split
    · simpa [IsPlain] using noDollar.symm
    · trivial
  | word read =>
    have other : read ≠ libraryName := by
      rintro rfl
      exact plain (by decide)
    refine ⟨rfl, ?_⟩
    rw [Place.next, if_neg noQuote]
    split
    · simpa [IsPlain] using ⟨plain, noDollar.symm⟩
    · rw [if_neg fun both => other both.2]
      trivial
  | function | literal | escape => exact plain.elim

end Place

/-- A bare text calls nothing and leaves the scanner in a plain place. -/
theorem exists_leads_of_isBare (bare : IsBare text) (plain : place.IsPlain) :
    ∃ last, last.IsPlain ∧ Leads allowed place text last := by
  have reads (chars : List Char) (bare : ∀ char ∈ chars, isBare char = true) (place : Place)
      (plain : place.IsPlain) :
      calledFrom place chars = [] ∧ (chars.foldl Place.next place).IsPlain := by
    induction chars generalizing place with
    | nil => exact ⟨rfl, plain⟩
    | cons char rest ih =>
      obtain ⟨here, later⟩ := List.forall_mem_cons.mp bare
      obtain ⟨silent, plain⟩ := plain.next here
      obtain ⟨calls, ends⟩ := ih later _ plain
      rw [calledFrom, silent, calls]
      exact ⟨rfl, ends⟩
  have oneLine : OneLine text := fun char member => by
    have plain := bare char member
    simp only [isBare, Bool.and_eq_true, Bool.not_eq_true'] at plain
    exact plain.2
  obtain ⟨calls, ends⟩ := reads _ bare place plain
  exact ⟨_, ends, .fixed ⟨⟨calls, rfl⟩, oneLine⟩⟩

/-! ## Literals -/

/-- Characters that stay inside of a literal and call nothing. -/
def StaysInside (chars : List Char) : Prop :=
  calledFrom .literal chars = [] ∧ chars.foldl Place.next .literal = .literal

theorem StaysInside.append {chars more : List Char} (one : StaysInside chars)
    (two : StaysInside more) : StaysInside (chars ++ more) := by
  rw [StaysInside, calledFrom_append, List.foldl_append, one.1, one.2]
  exact two

theorem staysInside_flatMap {α : Type} {pieces : List α} {written : α → List Char}
    (each : ∀ piece ∈ pieces, StaysInside (written piece)) :
    StaysInside (pieces.flatMap written) := by
  induction pieces with
  | nil => exact ⟨rfl, rfl⟩
  | cons piece rest ih =>
    obtain ⟨here, later⟩ := List.forall_mem_cons.mp each
    rw [List.flatMap_cons]
    exact here.append (ih later)

theorem staysInside_of_isOrdinary {char : Char} (plain : isOrdinary char = true) :
    StaysInside [char] := by
  simp only [isOrdinary, Bool.and_eq_true, decide_eq_true_eq] at plain
  obtain ⟨⟨⟨noQuote, noBackslash⟩, _⟩, _⟩ := plain
  exact ⟨rfl, by simp [Place.next, noQuote, noBackslash]⟩

theorem staysInside_escapeUnit (unit : Nat) : StaysInside (escapeUnit unit) := by
  have ordinary : ∀ digit < 16, isOrdinary (Text.hexDigit digit) = true := by decide
  have digits : StaysInside (Text.hexDigits 4 unit) := by
    rw [← List.flatMap_singleton' (Text.hexDigits 4 unit)]
    refine staysInside_flatMap fun char member => ?_
    obtain ⟨digit, small, rfl⟩ := Text.mem_hexDigits member
    exact staysInside_of_isOrdinary (ordinary digit small)
  have start : StaysInside ['\\', 'u'] := ⟨rfl, rfl⟩
  exact start.append digits

theorem staysInside_escapePoint (point : CodePoint) : StaysInside (escapePoint point) := by
  rcases escapePoint_eq_or point with
    ⟨sign, _, _, escape⟩ | ⟨char, _, plain, _, itself⟩ | escape
  · exact escape ▸ ⟨rfl, rfl⟩
  · exact itself ▸ staysInside_of_isOrdinary plain
  · exact escape ▸ staysInside_flatMap fun unit _ => staysInside_escapeUnit unit

/-- Nothing in a string literal is taken for a call, and the literal ends where it should. -/
theorem leads_stringLiteral (string : JavaString) :
    Leads allowed .between (stringLiteral string) .between := by
  have inside : StaysInside (string.points.flatMap escapePoint) :=
    staysInside_flatMap fun point _ => staysInside_escapePoint point
  have chars : (stringLiteral string).toList =
      '"' :: (string.points.flatMap escapePoint ++ ['"']) := by
    rw [stringLiteral, String.toList_ofList, List.cons_append]
  have start : Place.between.next '"' = .literal := rfl
  refine .fixed ⟨⟨?_, ?_⟩, oneLine_of_all (by decide) fun _ => isPrintable_stringLiteral⟩
  · rw [chars, calledFrom, calledFrom_append, start, inside.1, inside.2]
    rfl
  · rw [chars, List.foldl_cons, start, List.foldl_append, inside.2]
    rfl

end Bytescript.Script
