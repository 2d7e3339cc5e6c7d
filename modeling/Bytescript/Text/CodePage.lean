import Bytescript.Text.JavaString

/-!
# The character set of old archives

Names in archives that do not say they are UTF-8 are written in code page 437: the lower half is
ASCII, and the upper half has letters, box drawing and mathematical signs.
-/

set_option autoImplicit false

namespace Bytescript.Text

/-- The upper half of the code page, in order. -/
def codePageUpper : String :=
  "ÇüéâäàåçêëèïîìÄÅÉæÆôöòûùÿÖÜ¢£¥₧ƒáíóúñÑªº¿⌐¬½¼¡«»░▒▓│┤╡╢╖╕╣║╗╝╜╛┐└┴┬├─┼╞╟╚╔╩╦╠═╬╧╨╤╥╙╘╒╓╫╪┘┌█▄▌▐▀"
    ++ "αßΓπΣσµτΦΘΩδ∞φε∩≡±≥≤⌠⌡÷≈°∙·√ⁿ²■\u00a0"

/-- The character of a byte. -/
def codePageChar (byte : UInt8) : Char :=
  if byte.toNat < 0x80 then Char.ofNat byte.toNat
  else codePageUpper.toList.getD (byte.toNat - 0x80) ' '

/-- The text that bytes spell. -/
def ofCodePage (bytes : List UInt8) : String := String.ofList (bytes.map codePageChar)

end Bytescript.Text
