import Bytescript.Binary.Checksum
import Bytescript.Files.Archive.Image
import Bytescript.Text.CodePage
import Bytescript.Text.Damaged

/-!
# The entries of an archive's directory

An entry names a file, says how it is stored and where.  Behind these fixed fields it may have
extra fields, which know some of it better.  Every extra field has a kind and a length.  Those of
an unknown kind are passed over, and the known ones have to keep the rules of their kind.  If the
bytes end within a field, what was read up to there holds.
-/

set_option autoImplicit false

namespace Bytescript.Archive

open Binary

/-- An entry of the directory. -/
structure Entry where
  /-- The bytes of the name. -/
  nameBytes : List UInt8
  name : String
  comment : String
  isEncrypted : Bool
  /-- Whether the content is encrypted by a key of fixed length. -/
  isSealed : Bool
  /-- The number of the way in which the content is packed. -/
  packing : Nat
  check : UInt32
  packedSize : Nat
  size : Nat
  /-- The position of the header of the file. -/
  header : Nat

/-! ## Extra fields -/

/-- Why the extra fields of an entry are not read on. -/
inductive Stop where
  /-- The bytes have ended. -/
  | ended
  /-- A field breaks a rule of its kind. -/
  | broken
  deriving DecidableEq

/-- An entry that is being amended, and the bytes of extra fields that are left. -/
structure Draft where
  entry : Entry
  rest : List UInt8

/-- A step of reading extra fields.  What it did to the draft before it stopped stays. -/
abbrev Amending (α : Type) : Type := ExceptT Stop (StateM Draft) α

namespace Amending

/-- Stops because a rule is broken. -/
def reject : Amending Unit := throw .broken

/-- Takes the given number of bytes. -/
def take (count : Nat) : Amending (List UInt8) := do
  let draft ← get
  match splitExactly? count draft.rest with
  | some (bytes, rest) =>
    set { draft with rest }
    return bytes
  | none => throw .ended

/-- Reads a number of the given count of bytes. -/
def number (width : Nat) : Amending Nat := do
  return littleEndian (← take width)

/-- Changes the entry. -/
def amend (change : Entry → Entry) : Amending Unit :=
  modify fun draft => { draft with entry := change draft.entry }

/-- What stands for a number that is too large for its field. -/
def tooLarge : Nat := 0xffffffff

/-- Reads the large numbers of an entry.  A long field has all of them, and a short one only those
that were too large. -/
def largeNumbers (length : Nat) : Amending Unit := do
  let hasAll : Bool := 24 ≤ length
  let entry := (← get).entry
  let hasSize := hasAll || entry.size == tooLarge
  let hasPackedSize := hasAll || entry.packedSize == tooLarge
  let hasHeader := hasAll || entry.header == tooLarge
  if hasSize then
    let size ← number 8
    amend fun entry => { entry with size }
  if hasPackedSize then
    let packedSize ← number 8
    amend fun entry => { entry with packedSize }
  if hasHeader then
    let header ← number 8
    amend fun entry => { entry with header }
  let taken := 8 * (hasSize.toNat + hasPackedSize.toNat + hasHeader.toNat)
  if length < taken then reject
  let _unused ← take (length - taken)

/-- Passes over the three times that a file system keeps of a file. -/
def fileTimes (length : Nat) : Amending Unit := do
  if length ≠ 32 then reject
  let _reserved ← take 4
  if (← number 2) ≠ 1 then reject
  if (← number 2) ≠ 24 then reject
  let _times ← take 24

/-- Reads how the content is encrypted, and how it is packed below that. -/
def encryption (length : Nat) : Amending Unit := do
  if length ≠ 7 then reject
  let version ← number 2
  let vendor ← number 2
  let strength ← number 1
  let packing ← number 2
  if vendor ≠ 0x4541 then reject
  if version ≠ 1 ∧ version ≠ 2 then reject
  if strength = 0 ∨ 3 < strength then reject
  amend fun entry => { entry with isSealed := true, packing }

/-- The number of bits of a byte that are set. -/
def bitCount (byte : Nat) : Nat :=
  (List.range 8).foldl (fun count bit => count + byte / Nat.pow 2 bit % 2) 0

/-- Passes over the times of a file that the flags tell of; there are three of them.  Only a long
field has more than the first one, whatever the flags say. -/
def times (length : Nat) : Amending Unit := do
  let flags ← number 1
  if length ≠ 5 ∧ length ≠ 1 + 4 * bitCount flags then reject
  if 7 < flags then reject
  if flags % 2 = 1 ∨ length = 5 then
    let _changed ← take 4
  if flags / 2 % 2 = 1 ∧ 5 < length then
    let _opened ← take 4
  if flags / 4 % 2 = 1 ∧ 5 < length then
    let _created ← take 4

/-- Reads the bytes of a text in UTF-8 that stands for one in an older form.  The check must be that
of the older one. -/
def textBytes (length : Nat) (older : List UInt8) : Amending (List UInt8) := do
  let _version ← take 1
  let check ← number 4
  if length < 5 then reject
  let bytes ← take (length - 5)
  if checksum older ≠ UInt32.ofNat check then reject
  return bytes

/-- Reads a comment. -/
def comment (length : Nat) : Amending Unit := do
  let bytes ← textBytes length (← get).entry.comment.toUTF8.toList
  match Text.text? bytes with
  | some comment => amend fun entry => { entry with comment }
  | none => reject

/-- Reads a name. -/
def name (length : Nat) : Amending Unit := do
  let nameBytes ← textBytes length (← get).entry.nameBytes
  match Text.text? nameBytes with
  | some name => amend fun entry => { entry with nameBytes, name }
  | none => reject

/-- Reads one extra field. -/
def field : Amending Unit := do
  let kind ← number 2
  let length ← number 2
  match kind with
  | 0x0001 => largeNumbers length
  | 0x000a => fileTimes length
  | 0x5455 => times length
  | 0x6375 => comment length
  | 0x7075 => name length
  | 0x9901 => encryption length
  | _ =>
    let _unknown ← take length

/-- Reads extra fields, up to a number of them, until the bytes end. -/
def fields : (count : Nat) → Amending Unit
  | 0 => pure ()
  | count + 1 => do
    if (← get).rest.isEmpty then return
    field
    fields count

end Amending

/-- The way of packing that leaves it to an extra field how the content is encrypted. -/
def sealedPacking : Nat := 99

/-- The entry that extra fields make of one.  A field has at least four bytes. -/
def Entry.amended? (entry : Entry) (extra : List UInt8) : Option Entry :=
  match (Amending.fields extra.length).run ⟨entry, extra⟩ with
  | (.error .broken, _) => none
  | (_, draft) =>
    if draft.entry.packing = sealedPacking ∧ draft.entry.isSealed = false then none
    else some draft.entry

/-! ## Entries -/

/-- The text of a name or a comment, by whether the entry says that they are UTF-8. -/
def textOf ( isUnicode : Bool) (bytes : List UInt8) : String :=
  if isUnicode then Text.mendedText bytes else Text.ofCodePage bytes

/-- Reads the entry at a position, and where the next one begins. -/
def entryAt? (image : Image) (position : Nat) : Option (Entry × Nat) := do
  if image.hasAt entrySignature position then
    let flags ← image.number? (position + 8) 2
    let packing ← image.number? (position + 10) 2
    let check ← image.number? (position + 16) 4
    let packedSize ← image.number? (position + 20) 4
    let size ← image.number? (position + 24) 4
    let nameLength ← image.number? (position + 28) 2
    let extraLength ← image.number? (position + 30) 2
    let commentLength ← image.number? (position + 32) 2
    let header ← image.number? (position + 42) 4
    let nameBytes ← image.slice? (position + 46) nameLength
    let extra ← image.slice? (position + 46 + nameLength) extraLength
    let comment ← image.slice? (position + 46 + nameLength + extraLength) commentLength
    let isUnicode : Bool := flags / 0x800 % 2 = 1
    let entry : Entry := {
      nameBytes, name := textOf isUnicode nameBytes, comment := textOf isUnicode comment
      isEncrypted := flags % 2 = 1, isSealed := false
      packing, check := UInt32.ofNat check, packedSize, size, header }
    return (← entry.amended? extra,
      position + 46 + nameLength + extraLength + commentLength)
  else none

end Bytescript.Archive
