import Bytescript.Files.Archive.Image

/-!
# Where the directory of an archive is

The record at the end of an archive says where the directory is and how many entries it has.
Everything may be found some bytes later than it says, if something was put in front of the
archive; this shift shows in where the directory or the wide record really begins.

Anything may stand behind the record, and its comment may look like another one.  So there are
several candidates, the last ones first, and the directory that can be read tells which it was.

Numbers that are too large for the record are in a wide record before it, and a locator just in
front of the record at the end leads there.
-/

set_option autoImplicit false

namespace Bytescript.Archive

/-- Where the directory is. -/
structure Whereabouts where
  /-- The position of the first entry. -/
  start : Nat
  /-- How many entries there are. -/
  count : Nat
  /-- How many bytes later than it says everything is found. -/
  shift : Nat

/-! ## The record at the end -/

/-- What the record at the end says. -/
structure EndRecord where
  position : Nat
  disk : Nat
  directoryDisk : Nat
  /-- The number of entries on this disk. -/
  countHere : Nat
  /-- The number of entries on all disks. -/
  count : Nat
  offset : Nat

namespace EndRecord

/-- Reads the record at a position.  There must be room for its comment. -/
def at? (image : Image) (position : Nat) : Option EndRecord := do
  let disk ← image.number? (position + 4) 2
  let directoryDisk ← image.number? (position + 6) 2
  let countHere ← image.number? (position + 8) 2
  let count ← image.number? (position + 10) 2
  let offset ← image.number? (position + 16) 4
  let comment ← image.number? (position + 20) 2
  let _comment ← image.slice? (position + 22) comment
  return { position, disk, directoryDisk, countHere, count, offset }

/-- Whether numbers may have been too large for the record. -/
def mayBeWide (record : EndRecord) : Bool :=
  record.count == 0xffff || record.offset == 0xffffffff

/-- The shift by which the directory of a record is found.  An empty directory ends at the
record.  Any other begins with the first entry that is not before its place. -/
def shift? (image : Image) (record : EndRecord) : Option Nat :=
  if record.count = 0 then some (record.position - record.offset)
  else if record.position ≤ record.offset then none
  else
    (image.positions entrySignature record.offset record.position).head?.map (· - record.offset)

/-- Where the directory is by the record alone.  It must be on one disk. -/
def whereabouts? (image : Image) (record : EndRecord) : Option Whereabouts := do
  let shift ← record.shift? image
  if record.disk = record.directoryDisk then
    return ⟨record.offset + shift, record.countHere, shift⟩
  else none

end EndRecord

/-! ## The wide record -/

/-- What the locator of the wide record says. -/
structure Locator where
  position : Nat
  directoryDisk : Nat
  offset : Nat
  disks : Nat

namespace Locator

/-- Reads the locator before a record at the end. -/
def before? (image : Image) (record : EndRecord) : Option Locator := do
  if record.position < 20 then none
  else
    let position := record.position - 20
    if image.hasAt locatorSignature position then
      let directoryDisk ← image.number? (position + 4) 4
      let offset ← image.number? (position + 8) 8
      let disks ← image.number? (position + 16) 4
      return { position, directoryDisk, offset, disks }
    else none

end Locator

/-- What the wide record says. -/
structure WideRecord where
  position : Nat
  madeBy : Nat
  needed : Nat
  disk : Nat
  directoryDisk : Nat
  countHere : Nat
  count : Nat
  offset : Nat

namespace WideRecord

/-- The size of an entry of the directory without its name and what follows that. -/
def entrySize : Nat := 46

/-- Reads the wide record at a position.  It must reach up to its locator, and be on its disk,
and there must be room for the directory before it. -/
def at? (image : Image) (locator : Locator) (position : Nat) : Option WideRecord := do
  let size ← image.number? (position + 4) 8
  let madeBy ← image.number? (position + 12) 2
  let needed ← image.number? (position + 14) 2
  let disk ← image.number? (position + 16) 4
  let directoryDisk ← image.number? (position + 20) 4
  let countHere ← image.number? (position + 24) 8
  let count ← image.number? (position + 32) 8
  let offset ← image.number? (position + 48) 8
  if 44 ≤ size ∧ position + 12 + size = locator.position
      ∧ directoryDisk = locator.directoryDisk
      ∧ offset + count * entrySize ≤ position then
    return { position, madeBy, needed, disk, directoryDisk, countHere, count, offset }
  else none

/-- The wide record that a locator leads to, which may be later than it says. -/
def of? (image : Image) (locator : Locator) : Option WideRecord :=
  if locator.position ≤ locator.offset ∨ 1 < locator.disks then none
  else
    (image.positions wideEndSignature locator.offset locator.position).findSome? (at? image locator)

/-- Where the directory is by the wide record.  It must be on one disk with all its entries, and
whoever wrote the archive must have been able to read it. -/
def whereabouts? (locator : Locator) (record : WideRecord) : Option Whereabouts :=
  let shift := record.position - locator.offset
  if record.countHere ≤ record.count ∧ record.needed ≤ record.madeBy
      ∧ record.disk = record.directoryDisk then
    some ⟨record.offset + shift, record.count, shift⟩
  else none

end WideRecord

/-! ## All candidates -/

/-- Where the directory is by a record at the end and what is before it. -/
def EndRecord.lead? (image : Image) (record : EndRecord) : Option Whereabouts :=
  match if record.mayBeWide then Locator.before? image record else none with
  | some locator => (WideRecord.of? image locator).bind (WideRecord.whereabouts? locator)
  | none => record.whereabouts? image

/-- All places where the directory may be, the most likely one first. -/
def candidates (image : Image) : List Whereabouts :=
  (image.positions endSignature 0 image.size).reverse.filterMap fun position =>
    (EndRecord.at? image position).bind (EndRecord.lead? image)

end Bytescript.Archive
