import Bytescript.ClassFile.Constant
import Bytescript.Decimal.Shortest
import Bytescript.Text.Hex

/-!
# Literals of the script

Constants as the script spells them.  A string literal consists of printable ASCII only:
everything else is escaped by its UTF-16 units, which is also what strings of the script are made
of, so lone surrogates survive.
-/

set_option autoImplicit false

namespace Bytescript.Script

/-- A UTF-16 unit as an escape. -/
def escapeUnit (unit : Nat) : List Char := '\\' :: 'u' :: Text.hexDigits 4 unit

/-- A code point inside a string literal. -/
def escapePoint (point : CodePoint) : List Char :=
  if point.val = 0x22 then ['\\', '"']
  else if point.val = 0x5c then ['\\', '\\']
  else if point.val = 0x0a then ['\\', 'n']
  else if point.val = 0x0d then ['\\', 'r']
  else if point.val = 0x09 then ['\\', 't']
  else if 0x20 ≤ point.val ∧ point.val ≤ 0x7e then [Char.ofNat point.val]
  else point.units.flatMap escapeUnit

/-- A string literal. -/
def stringLiteral (string : JavaString) : String :=
  String.ofList ('"' :: string.points.flatMap escapePoint ++ ['"'])

/-- The literal of a text. -/
def textLiteral (text : String) : String := stringLiteral (JavaString.ofString text)

/-- The literal of a 64 bit floating point number. -/
def doubleLiteral (bits : UInt64) : String := (Decimal.double.decode bits.toNat).literal

/-- The literal of a 32 bit floating point number, which spells its exact value. -/
def floatLiteral (bits : UInt32) : String := (Decimal.single.decode bits.toNat).widen.literal

/-- The literal of a long. -/
def longLiteral (value : Int) : String := toString value ++ "n"

/-- The literal of a constant. -/
def constantLiteral : Constant → String
  | .integer value => toString value.toInt
  | .float bits => floatLiteral bits
  | .long value => longLiteral value.toInt
  | .double bits => doubleLiteral bits
  | .string value => stringLiteral value

end Bytescript.Script
