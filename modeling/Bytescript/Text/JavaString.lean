/-!
# Strings that may hold lone surrogates

The strings of a class file are sequences of sixteen bit units, and nothing forces a surrogate
to come with its other half.  Here such a string is the list of its code points: a pair of
surrogates stands as the one supplementary code point it denotes, and a surrogate without a
partner stands as itself.  A text of Unicode characters is then exactly a string whose points
are all characters.
-/

set_option autoImplicit false

namespace Bytescript

/-- A Unicode code point, which may be a surrogate. -/
abbrev CodePoint : Type := Fin 0x110000

namespace CodePoint

/-- The code point of a character. -/
def ofChar (char : Char) : CodePoint :=
  ⟨char.toNat, by
    have valid := char.valid
    simp only [UInt32.isValidChar, Nat.isValidChar] at valid
    simp only [Char.toNat]
    omega⟩

/-- The first halves of a surrogate pair. -/
def isHighSurrogate (unit : Nat) : Bool := 0xd800 ≤ unit && unit ≤ 0xdbff

/-- The second halves of a surrogate pair. -/
def isLowSurrogate (unit : Nat) : Bool := 0xdc00 ≤ unit && unit ≤ 0xdfff

/-- Either half of a surrogate pair. -/
def isSurrogate (unit : Nat) : Bool := 0xd800 ≤ unit && unit ≤ 0xdfff

/-- The character at a code point, if it is one. -/
def toChar? (point : CodePoint) : Option Char :=
  if isSurrogate point.val then none else some (Char.ofNat point.val)

/-- The UTF-16 units of a code point: two surrogates above the basic plane, else itself. -/
def units (point : CodePoint) : List Nat :=
  if point.val < 0x10000 then [point.val]
  else [0xd800 + (point.val - 0x10000) / 0x400, 0xdc00 + (point.val - 0x10000) % 0x400]

/-- The supplementary code point that a pair of surrogates denotes. -/
def ofPair (high low : Nat) : CodePoint :=
  ⟨(0x10000 + (high - 0xd800) % 0x400 * 0x400 + (low - 0xdc00) % 0x400), by omega⟩

end CodePoint

/-- A string by its code points. -/
structure JavaString where
  points : List CodePoint
  deriving DecidableEq

namespace JavaString

/-- A text as a string of its characters. -/
def ofString (text : String) : JavaString := ⟨text.toList.map CodePoint.ofChar⟩

/-- The text a string spells, if it has no lone surrogates. -/
def toString? (string : JavaString) : Option String :=
  (string.points.mapM CodePoint.toChar?).map String.ofList

/-- The UTF-16 units of a string. -/
def units (string : JavaString) : List Nat := string.points.flatMap CodePoint.units

/-- Reads units from left to right, joining a high surrogate with a low one right after it. -/
def pointsOfUnits : List Nat → List CodePoint
  | [] => []
  | [unit] => [⟨unit % 0x10000, by omega⟩]
  | unit :: next :: rest =>
    if CodePoint.isHighSurrogate unit && CodePoint.isLowSurrogate next then
      CodePoint.ofPair unit next :: pointsOfUnits rest
    else
      ⟨unit % 0x10000, by omega⟩ :: pointsOfUnits (next :: rest)

/-- The string with the given UTF-16 units. -/
def ofUnits (units : List Nat) : JavaString := ⟨pointsOfUnits units⟩

end JavaString

end Bytescript
