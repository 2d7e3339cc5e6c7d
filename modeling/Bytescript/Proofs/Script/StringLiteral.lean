import Bytescript.Proofs.Script.Escape
import Bytescript.Proofs.Script.TextLines
import Bytescript.Script.Literal

/-!
# String literals are read back

A string literal of the script ends at the first quote without a backslash in front.  What stands
before that is read from left to right: a character stands for its own UTF-16 units, and a backslash
begins an escape, which may be one character, a number in octal or hexadecimal digits, or the end of
a line that does not count.

The literals of constants hold few of these, but all of them are defined here, since a character
that follows an escape must not be taken for a part of it.  Whatever follows such a literal, it is
read in one way only: to its last quote, as the units of the string.
-/

set_option autoImplicit false

namespace Bytescript.Script

open Text

/-! ## Escapes -/

/-- The value of a hexadecimal digit. -/
def hexValue? (char : Char) : Option Nat :=
  if char.isDigit then some (char.toNat - 48)
  else if 'a' ≤ char ∧ char ≤ 'f' then some (char.toNat - 87)
  else if 'A' ≤ char ∧ char ≤ 'F' then some (char.toNat - 55)
  else none

/-- Reads a fixed count of hexadecimal digits, behind those that make up a number already. -/
def readHex : (count number : Nat) → List Char → Option (Nat × List Char)
  | 0, number, rest => some (number, rest)
  | _ + 1, _, [] => none
  | count + 1, number, char :: rest =>
    (hexValue? char).bind fun digit => readHex count (number * 16 + digit) rest

/-- Reads hexadecimal digits that make up one unit. -/
def readUnit (digits : Nat) (chars : List Char) : Option (List Nat × List Char) :=
  (readHex digits 0 chars).map fun (unit, rest) => ([unit], rest)

/-- Reads a code point in hexadecimal digits and the brace behind it. -/
def readCodePoint (chars : List Char) : Option (List Nat × List Char) :=
  let digits := (chars.takeWhile fun char => (hexValue? char).isSome).length
  match readHex digits 0 chars with
  | some (number, '\x7d' :: rest) =>
    if small : 0 < digits ∧ number < 0x110000 then
      some (CodePoint.units ⟨number, small.2⟩, rest)
    else none
  | _ => none

/-- Whether a character is an octal digit. -/
def isOctalDigit (char : Char) : Bool := '0' ≤ char && char ≤ '7'

/-- Reads an octal number of up to three digits that is less than 256.  A digit that is not octal
stands for itself. -/
def readOctal (first : Char) (rest : List Char) : List Nat × List Char :=
  if isOctalDigit first then
    let more := (rest.take (if first ≤ '3' then 2 else 1)).takeWhile isOctalDigit
    ([(first :: more).foldl (fun number digit => number * 8 + (digit.toNat - 48)) 0],
      rest.drop more.length)
  else ((CodePoint.ofChar first).units, rest)

/-- The unit that a single character stands for behind a backslash. -/
def singleEscape? : Char → Option Nat
  | '\'' => some 0x27
  | '"' => some 0x22
  | '\\' => some 0x5c
  | 'b' => some 0x08
  | 'f' => some 0x0c
  | 'n' => some 0x0a
  | 'r' => some 0x0d
  | 't' => some 0x09
  | 'v' => some 0x0b
  | _ => none

/-- Reads the rest of an escape, whose backslash is followed by a character. -/
def readEscape (first : Char) (rest : List Char) : Option (List Nat × List Char) :=
  match singleEscape? first with
  | some unit => some ([unit], rest)
  | none =>
    if first = 'x' then readUnit 2 rest
    else if first = 'u' then
      if rest.head? = some '\x7b' then readCodePoint rest.tail else readUnit 4 rest
    else if first.isDigit then some (readOctal first rest)
    else if isLineEnd first then
      -- both signs of a line break are one end of a line
      some ([], if first = '\r' ∧ rest.head? = some '\n' then rest.tail else rest)
    else some ((CodePoint.ofChar first).units, rest)

/-! ## String literals -/

/-- Whether a character stands for itself in a string literal.  The quote, the backslash and the
two signs of a line break do not. -/
def isOrdinary (char : Char) : Bool :=
  char ≠ '"' && char ≠ '\\' && char ≠ '\n' && char ≠ '\r'

/-- A text goes on with a string literal up to its closing quote, and then with something else.  The
part of the literal has a value. -/
inductive ReadsOn : List Char → List Nat → List Char → Prop where
  | close (rest : List Char) : ReadsOn ('"' :: rest) [] rest
  | ordinary {char : Char} {text rest : List Char} {value : List Nat}
    (plain : isOrdinary char = true) (later : ReadsOn text value rest) :
    ReadsOn (char :: text) ((CodePoint.ofChar char).units ++ value) rest
  | escape {first : Char} {text after rest : List Char} {units value : List Nat}
    (read : readEscape first text = some (units, after)) (later : ReadsOn after value rest) :
    ReadsOn ('\\' :: first :: text) (units ++ value) rest

/-- A text begins with a string literal that has a value, and goes on with something else. -/
inductive ReadsString : List Char → List Nat → List Char → Prop where
  | quoted {text rest : List Char} {value : List Nat} (inside : ReadsOn text value rest) :
    ReadsString ('"' :: text) value rest

variable {text rest rest' : List Char} {value value' : List Nat}

/-- Reading does not have a choice. -/
theorem ReadsOn.unique (reads : ReadsOn text value rest) (reads' : ReadsOn text value' rest') :
    value = value' ∧ rest = rest' := by
  induction reads generalizing value' with
  | close rest =>
    cases reads' with
    | close => exact ⟨rfl, rfl⟩
    | ordinary plain => cases plain
  | ordinary plain _ ih =>
    cases reads' with
    | close => cases plain
    | ordinary _ later =>
      obtain ⟨rfl, rfl⟩ := ih later
      exact ⟨rfl, rfl⟩
    | escape => cases plain
  | escape read _ ih =>
    cases reads' with
    | ordinary plain => cases plain
    | escape read' later =>
      rw [read] at read'
      cases read'
      obtain ⟨rfl, rfl⟩ := ih later
      exact ⟨rfl, rfl⟩

theorem ReadsString.unique (reads : ReadsString text value rest)
    (reads' : ReadsString text value' rest') : value = value' ∧ rest = rest' := by
  cases reads with
  | quoted inside =>
    cases reads' with
    | quoted inside' => exact inside.unique inside'

/-! ## Hexadecimal digits -/

theorem hexValue?_hexDigit : ∀ digit < 16, hexValue? (hexDigit digit) = some digit := by decide

/-- The last digit may be read after the others. -/
theorem readHex_succ (count number : Nat) (chars : List Char) :
    readHex (count + 1) number chars =
      (readHex count number chars).bind fun (number, rest) => readHex 1 number rest := by
  induction count generalizing number chars with
  | zero => rfl
  | succ count ih =>
    cases chars with
    | nil => rfl
    | cons char rest =>
      rw [readHex, readHex]
      cases hexValue? char with
      | none => rfl
      | some digit => exact ih _ rest

theorem readHex_hexDigits (width number : Nat) (rest : List Char) :
    readHex width 0 (hexDigits width number ++ rest) = some (number % 16 ^ width, rest) := by
  induction width generalizing number rest with
  | zero => simp [readHex, hexDigits, Nat.mod_one]
  | succ width ih =>
    have last := hexValue?_hexDigit (number % 16) (Nat.mod_lt _ (by decide))
    have value : number / 16 % 16 ^ width * 16 + number % 16 = number % 16 ^ (width + 1) := by
      rw [Nat.pow_succ', Nat.mod_mul]
      omega
    rw [hexDigits, readHex_succ, List.append_assoc, ih]
    simp [readHex, last, value]

/-- Four digits are read as the unit that they spell. -/
theorem readEscape_hexDigits {unit : Nat} (small : unit < 0x10000) (rest : List Char) :
    readEscape 'u' (hexDigits 4 unit ++ rest) = some ([unit], rest) := by
  have noBrace : (hexDigits 4 unit ++ rest).head? ≠ some '\x7b' := by
    have digits : ∀ digit < 16, hexDigit digit ≠ '\x7b' := by decide
    exact fun brace => digits _ (Nat.mod_lt _ (by decide)) (Option.some.inj brace)
  have unicode (chars : List Char) : readEscape 'u' chars =
      if chars.head? = some '\x7b' then readCodePoint chars.tail else readUnit 4 chars := rfl
  rw [unicode, if_neg noBrace, readUnit, readHex_hexDigits]
  simp [Nat.mod_eq_of_lt small]

/-! ## The text of a code point -/

/-- Whether a character is a printable one of ASCII. -/
def isPrintable (char : Char) : Bool := ' ' ≤ char && char ≤ '~'

/-- Printable characters other than the quote and the backslash stand for themselves. -/
theorem isOrdinary_ofNat : ∀ unit < 0x7f, 0x20 ≤ unit → unit ≠ 0x22 → unit ≠ 0x5c →
    isOrdinary (Char.ofNat unit) = true ∧
      (CodePoint.ofChar (Char.ofNat unit)).units = [unit] := by
  decide

/-- A code point is a single character behind a backslash, or stands for itself, or is escaped by
its units. -/
theorem escapePoint_eq_or (point : CodePoint) :
    (∃ sign, isPrintable sign = true ∧ singleEscape? sign = some point.val ∧
      escapePoint point = ['\\', sign]) ∨
    (∃ char, isPrintable char = true ∧ isOrdinary char = true ∧
      (CodePoint.ofChar char).units = [point.val] ∧ escapePoint point = [char]) ∨
    escapePoint point = point.units.flatMap escapeUnit := by
  rw [escapePoint]
  split
  next quote => exact .inl ⟨'"', rfl, congrArg some quote.symm, rfl⟩
  split
  next backslash => exact .inl ⟨'\\', rfl, congrArg some backslash.symm, rfl⟩
  split
  next newline => exact .inl ⟨'n', rfl, congrArg some newline.symm, rfl⟩
  split
  next carriageReturn => exact .inl ⟨'r', rfl, congrArg some carriageReturn.symm, rfl⟩
  split
  next tab => exact .inl ⟨'t', rfl, congrArg some tab.symm, rfl⟩
  split
  next noQuote noBackslash _ _ _ printable =>
    have ascii : ∀ unit < 0x7f, 0x20 ≤ unit → isPrintable (Char.ofNat unit) = true := by decide
    obtain ⟨plain, units⟩ :=
      isOrdinary_ofNat point.val (by omega) printable.1 noQuote noBackslash
    exact .inr (.inl ⟨_, ascii _ (by omega) printable.1, plain, units, rfl⟩)
  next => exact .inr (.inr rfl)

/-! ## The text of a unit -/

/-- A unit inside of a string literal. -/
def unitText (unit : Nat) : List Char := escapePoint ⟨unit % 0x110000, Nat.mod_lt _ (by decide)⟩

theorem unitText_val (point : CodePoint) : unitText point.val = escapePoint point :=
  congrArg escapePoint (Fin.ext (Nat.mod_eq_of_lt point.isLt))

/-- Everything beyond ASCII is escaped by its units. -/
theorem escapePoint_of_lt {point : CodePoint} (large : 0x7e < point.val) :
    escapePoint point = point.units.flatMap escapeUnit := by
  rw [escapePoint, if_neg (by omega), if_neg (by omega), if_neg (by omega), if_neg (by omega),
    if_neg (by omega), if_neg (by omega)]

theorem unitText_of_lt {unit : Nat} (large : 0x7e < unit) (small : unit < 0x10000) :
    unitText unit = escapeUnit unit := by
  have same : unitText unit = escapePoint ⟨unit, by omega⟩ := unitText_val ⟨unit, by omega⟩
  rw [same, escapePoint_of_lt large, CodePoint.units, if_pos small, List.flatMap_singleton]

/-- A code point is written unit by unit. -/
theorem escapePoint_eq (point : CodePoint) :
    escapePoint point = point.units.flatMap unitText := by
  rw [CodePoint.units]
  split
  next basic => rw [List.flatMap_singleton, unitText_val]
  next above =>
    have bound := point.isLt
    rw [escapePoint_of_lt (by omega), CodePoint.units, if_neg above]
    simp only [List.flatMap_cons, List.flatMap_nil]
    rw [unitText_of_lt (by omega) (by omega), unitText_of_lt (by omega) (by omega)]

theorem toList_stringLiteral (string : JavaString) :
    (stringLiteral string).toList = '"' :: (string.units.flatMap unitText ++ ['"']) := by
  have points : string.points.flatMap escapePoint = string.units.flatMap unitText := by
    rw [JavaString.units, List.flatMap_assoc]
    exact List.flatMap_congr fun point _ => escapePoint_eq point
  rw [stringLiteral, String.toList_ofList, points, List.cons_append]

/-! ## Reading a literal -/

theorem ReadsOn.single {first : Char} {unit : Nat} (stands : singleEscape? first = some unit)
    (later : ReadsOn text value rest) : ReadsOn ('\\' :: first :: text) (unit :: value) rest :=
  have read : readEscape first text = some ([unit], text) := by rw [readEscape, stands]
  .escape read later

/-- A code point of one unit is read as that unit, whatever follows. -/
theorem ReadsOn.escapePoint {point : CodePoint} (basic : point.val < 0x10000)
    (later : ReadsOn text value rest) :
    ReadsOn (escapePoint point ++ text) (point.val :: value) rest := by
  rcases escapePoint_eq_or point with
    ⟨sign, _, stands, escape⟩ | ⟨char, _, plain, units, itself⟩ | escape
  · rw [escape]
    exact .single stands later
  · have reads := ReadsOn.ordinary plain later
    rw [units] at reads
    rwa [itself]
  · rw [escape, CodePoint.units, if_pos basic, List.flatMap_singleton]
    exact .escape (readEscape_hexDigits basic text) later

theorem ReadsOn.unitTexts {units : List Nat} (small : ∀ unit ∈ units, unit < 0x10000)
    (rest : List Char) : ReadsOn (units.flatMap unitText ++ '"' :: rest) units rest := by
  induction units with
  | nil => exact .close rest
  | cons unit units ih =>
    obtain ⟨here, later⟩ := List.forall_mem_cons.mp small
    have point : Script.escapePoint ⟨unit, by omega⟩ = unitText unit :=
      (unitText_val ⟨unit, by omega⟩).symm
    rw [List.flatMap_cons, List.append_assoc, ← point]
    exact ReadsOn.escapePoint here (ih later)

theorem readsString_stringLiteral (string : JavaString) (rest : List Char) :
    ReadsString ((stringLiteral string).toList ++ rest) string.units rest := by
  rw [toList_stringLiteral, List.cons_append, List.append_assoc]
  exact .quoted (ReadsOn.unitTexts (Text.units_lt string) rest)

/-! ## Characters of a literal -/

theorem isPrintable_escapeUnit {unit : Nat} {char : Char} (member : char ∈ escapeUnit unit) :
    isPrintable char = true := by
  have printable : ∀ digit < 16, isPrintable (hexDigit digit) = true := by decide
  simp only [escapeUnit, List.mem_cons] at member
  rcases member with rfl | rfl | member
  · rfl
  · rfl
  · obtain ⟨digit, small, rfl⟩ := mem_hexDigits member
    exact printable digit small

theorem isPrintable_escapePoint {point : CodePoint} {char : Char}
    (member : char ∈ escapePoint point) : isPrintable char = true := by
  rcases escapePoint_eq_or point with
    ⟨sign, visible, _, escape⟩ | ⟨char, visible, _, _, itself⟩ | escape
  · rw [escape, List.mem_cons, List.mem_singleton] at member
    rcases member with rfl | rfl
    · rfl
    · exact visible
  · rw [itself, List.mem_singleton] at member
    exact member ▸ visible
  · rw [escape] at member
    obtain ⟨unit, _, inside⟩ := List.mem_flatMap.mp member
    exact isPrintable_escapeUnit inside

theorem isPrintable_stringLiteral {string : JavaString} {char : Char}
    (member : char ∈ (stringLiteral string).toList) : isPrintable char = true := by
  rw [stringLiteral, String.toList_ofList, List.mem_append, List.mem_cons,
    List.mem_singleton] at member
  rcases member with (rfl | inside) | rfl
  · rfl
  · obtain ⟨point, _, inside⟩ := List.mem_flatMap.mp inside
    exact isPrintable_escapePoint inside
  · rfl

/-- **A string literal is read as the string, and nothing in it ends it early.**  It consists of
printable characters of ASCII, and whatever follows, the only way to read it is up to its last
quote, with the units of the string as its value.  So strings with different units have different
literals. -/
theorem stringLiteral_readBack (string : JavaString) :
    (∀ char ∈ (stringLiteral string).toList, isPrintable char = true) ∧
    (∀ rest value after, ReadsString ((stringLiteral string).toList ++ rest) value after ↔
      value = string.units ∧ after = rest) ∧
    ∀ other : JavaString, stringLiteral string = stringLiteral other ↔
      string.units = other.units := by
  refine ⟨fun char => isPrintable_stringLiteral, fun rest value after => ?_, fun other => ?_⟩
  · constructor
    · exact fun reads => reads.unique (readsString_stringLiteral string rest)
    · rintro ⟨rfl, rfl⟩
      exact readsString_stringLiteral string after
  · constructor
    · intro same
      have reads := readsString_stringLiteral string []
      rw [same] at reads
      exact (reads.unique (readsString_stringLiteral other [])).1
    · intro same
      refine String.toList_injective ?_
      rw [toList_stringLiteral, toList_stringLiteral, same]

/-- A digit behind an escape is not taken for a part of it. -/
example : stringLiteral ⟨[0, 0x31, 0xd800]⟩ = "\"\\u00001\\ud800\"" := by decide

end Bytescript.Script
