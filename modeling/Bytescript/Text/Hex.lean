/-!
# Hexadecimal numbers

Escapes in quoted text, in string literals and in mangled names all write a number in lowercase
hexadecimal digits, either as many as needed or a fixed count of them.  The fixed width form
keeps the last digits only, so it says the number exactly when that fits.
-/

set_option autoImplicit false

namespace Bytescript.Text

/-- The lowercase hexadecimal digit of a number below sixteen. -/
def hexDigit (digit : Nat) : Char :=
  if digit < 10 then Char.ofNat (48 + digit) else Char.ofNat (87 + digit)

/-- The last `width` hexadecimal digits of a number, the most significant first. -/
def hexDigits : (width number : Nat) → List Char
  | 0, _ => []
  | width + 1, number => hexDigits width (number / 16) ++ [hexDigit (number % 16)]

/-- How many hexadecimal digits a number needs, at least one. -/
def hexWidth (number : Nat) : Nat :=
  if number < 16 then 1 else hexWidth (number / 16) + 1

/-- A number in hexadecimal without leading zeros. -/
def hex (number : Nat) : String :=
  String.ofList (hexDigits (hexWidth number) number)

/-- A number in hexadecimal, filled up with zeros to at least `width` digits. -/
def paddedHex (width number : Nat) : String :=
  String.ofList (hexDigits (max width (hexWidth number)) number)

end Bytescript.Text
