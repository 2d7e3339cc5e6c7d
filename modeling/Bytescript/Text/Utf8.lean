import Bytescript.Text.JavaString

/-!
# The two byte forms of strings

A class file stores a string in a modified UTF-8: the NUL takes two bytes, and a supplementary
character is written as its two surrogates of three bytes each, so no byte of an encoding is
zero.  Reading is more liberal than writing.  Bytes that are standard UTF-8 as a whole are taken
as that; only others are read as the modified form, unit by unit, and surrogates that stand next
to each other are then joined.
-/

set_option autoImplicit false

namespace Bytescript.Text

/-! ## Writing -/

/-- The modified form of one UTF-16 unit. -/
def encodeUnit (unit : Nat) : List UInt8 :=
  if 0 < unit ∧ unit < 0x80 then [UInt8.ofNat unit]
  else if unit < 0x800 then
    [UInt8.ofNat (0xc0 + unit / 0x40), UInt8.ofNat (0x80 + unit % 0x40)]
  else
    [UInt8.ofNat (0xe0 + unit / 0x1000), UInt8.ofNat (0x80 + unit / 0x40 % 0x40),
      UInt8.ofNat (0x80 + unit % 0x40)]

/-- The modified form of a string. -/
def encodeJava (string : JavaString) : List UInt8 := string.units.flatMap encodeUnit

/-- The modified form of a text. -/
def modifiedUtf8 (text : String) : List UInt8 := encodeJava (JavaString.ofString text)

/-! ## Reading -/

/-- Whether a byte lies in a range. -/
def between (low high : Nat) (byte : UInt8) : Bool := low ≤ byte.toNat && byte.toNat ≤ high

/-- The bytes after the first one of a character. -/
def isContinuation : UInt8 → Bool := between 0x80 0xbf

/-- The six bits a continuation byte carries. -/
def continuationBits (byte : UInt8) : Nat := byte.toNat % 0x40

/-- The range of the second byte of a character in the standard form, and how many bytes follow
the first, by the first byte. -/
def standardTail (first : UInt8) : Option (Nat × Nat × Nat) :=
  if between 0xc2 0xdf first then some (1, 0x80, 0xbf)
  else if first = 0xe0 then some (2, 0xa0, 0xbf)
  else if first = 0xed then some (2, 0x80, 0x9f)
  else if between 0xe1 0xef first then some (2, 0x80, 0xbf)
  else if first = 0xf0 then some (3, 0x90, 0xbf)
  else if between 0xf1 0xf3 first then some (3, 0x80, 0xbf)
  else if first = 0xf4 then some (3, 0x80, 0x8f)
  else none

/-- Reads standard UTF-8, and fails if the bytes are anything else. -/
def decodeStandard : List UInt8 → Option (List CodePoint)
  | [] => some []
  | first :: rest =>
    if first.toNat < 0x80 then
      (decodeStandard rest).map (⟨first.toNat % 0x80, by omega⟩ :: ·)
    else
      match standardTail first, rest with
      | some (1, low, high), second :: rest =>
        if between low high second then
          (decodeStandard rest).map
            (⟨first.toNat % 0x20 * 0x40 + continuationBits second,
              by simp only [continuationBits]; omega⟩ :: ·)
        else none
      | some (2, low, high), second :: third :: rest =>
        if between low high second && isContinuation third then
          (decodeStandard rest).map
            (⟨first.toNat % 0x10 * 0x1000 + continuationBits second * 0x40
                + continuationBits third,
              by simp only [continuationBits]; omega⟩ :: ·)
        else none
      | some (3, low, high), second :: third :: fourth :: rest =>
        if between low high second && isContinuation third && isContinuation fourth then
          (decodeStandard rest).map
            (⟨(first.toNat % 0x08 * 0x40000 + continuationBits second * 0x1000
                + continuationBits third * 0x40 + continuationBits fourth) % 0x110000,
              by omega⟩ :: ·)
        else none
      | _, _ => none

@[simp] theorem decodeStandard_nil : decodeStandard [] = some [] := by
  rw [decodeStandard.eq_def]

/-- Reads the modified form into UTF-16 units. -/
def decodeUnits : List UInt8 → Option (List Nat)
  | [] => some []
  | first :: rest =>
    if between 0x01 0x7f first then
      (decodeUnits rest).map (first.toNat :: ·)
    else if first = 0xc0 then
      match rest with
      | second :: rest => if second = 0x80 then (decodeUnits rest).map (0 :: ·) else none
      | [] => none
    else if between 0xc2 0xdf first then
      match rest with
      | second :: rest =>
        if isContinuation second then
          (decodeUnits rest).map ((first.toNat % 0x20 * 0x40 + continuationBits second) :: ·)
        else none
      | [] => none
    else if between 0xe0 0xef first then
      match rest with
      | second :: third :: rest =>
        if (if first = 0xe0 then between 0xa0 0xbf second else isContinuation second)
            && isContinuation third then
          (decodeUnits rest).map
            ((first.toNat % 0x10 * 0x1000 + continuationBits second * 0x40
              + continuationBits third) :: ·)
        else none
      | _ => none
    else none

@[simp] theorem decodeUnits_nil : decodeUnits [] = some [] := by
  rw [decodeUnits.eq_def]

/-- The string that the bytes spell: standard UTF-8 if they are that, else the modified form. -/
def readUtf8? (bytes : List UInt8) : Option JavaString :=
  match decodeStandard bytes with
  | some points => some ⟨points⟩
  | none => (decodeUnits bytes).map JavaString.ofUnits

end Bytescript.Text
