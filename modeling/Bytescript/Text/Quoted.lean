import Bytescript.Text.Hex
import Bytescript.Text.JavaString
import Bytescript.Text.Unprintable

/-!
# Quoted text in messages

Messages show names and other text from class files between quotes, so that blanks and control
characters can be seen.  Text stands between double quotes and a single character between single
ones; the quote in use and the backslash are escaped, four control characters have short
escapes, and everything else that does not print is written by its code point.
-/

set_option autoImplicit false

namespace Bytescript.Text

/-- One code point inside quotes. -/
def quotePoint (quote : Char) (point : CodePoint) : List Char :=
  if point.val = 0 then ['\\', '0']
  else if point.val = 9 then ['\\', 't']
  else if point.val = 10 then ['\\', 'n']
  else if point.val = 13 then ['\\', 'r']
  else if point.val = 92 then ['\\', '\\']
  else if point.val = quote.toNat then ['\\', quote]
  else if isUnprintable point.val then
    ['\\', 'u', '\x7b'] ++ hexDigits (hexWidth point.val) point.val ++ ['\x7d']
  else [Char.ofNat point.val]

/-- A string with surrogates between double quotes. -/
def quoteJava (string : JavaString) : String :=
  String.ofList ('"' :: string.points.flatMap (quotePoint '"') ++ ['"'])

/-- A text between double quotes. -/
def quote (text : String) : String := quoteJava (JavaString.ofString text)

/-- A character between single quotes. -/
def quoteChar (char : Char) : String :=
  String.ofList ('\'' :: quotePoint '\'' (CodePoint.ofChar char) ++ ['\''])

end Bytescript.Text
