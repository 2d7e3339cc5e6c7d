/-!
# Words

Numbers lie in files as a fixed count of bytes, the most significant first, and archives store
theirs the other way round.  Writing keeps the low bytes of a number, so reading gives back what
was written up to a power of 256.
-/

set_option autoImplicit false

namespace Bytescript.Binary

/-- The number that bytes spell, the most significant first. -/
def bigEndian (bytes : List UInt8) : Nat :=
  bytes.foldl (fun number byte => number * 0x100 + byte.toNat) 0

/-- The number that bytes spell, the least significant first. -/
def littleEndian (bytes : List UInt8) : Nat := bigEndian bytes.reverse

/-- The low `count` bytes of a number, the most significant first. -/
def bigEndianBytes : (count number : Nat) → List UInt8
  | 0, _ => []
  | count + 1, number => bigEndianBytes count (number / 0x100) ++ [UInt8.ofNat (number % 0x100)]

/-- The number with the given low bits, read as two's complement. -/
def twosComplement (bits number : Nat) : Int :=
  if number < Nat.pow 2 (bits - 1) then number else number - (Nat.pow 2 bits : Nat)

/-- The word of the given width that holds a number in two's complement. -/
def wordOfInt (bits : Nat) (number : Int) : Nat := (number % (Nat.pow 2 bits : Nat)).toNat

/-- Splits a list after exactly `count` items, if it is that long. -/
def splitExactly? {α : Type} : (count : Nat) → List α → Option (List α × List α)
  | 0, items => some ([], items)
  | _ + 1, [] => none
  | count + 1, item :: items =>
    match splitExactly? count items with
    | some (front, back) => some (item :: front, back)
    | none => none

end Bytescript.Binary
