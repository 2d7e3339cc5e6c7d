import Bytescript.Files.Archive.EndRecord
import Bytescript.Files.Archive.Entry

/-!
# The directory of an archive

The directory is a row of entries, and stands behind all files.  Each entry has a name of its
own: a later one takes the place of an earlier one with the same name.
-/

set_option autoImplicit false

namespace Bytescript.Archive

/-- An entry whose file begins the shift later than it says. -/
def Entry.shifted (entry : Entry) (shift : Nat) : Entry :=
  { entry with header := entry.header + shift }

/-- Reads a number of entries in a row.  Their files must begin before the directory. -/
def entries? (image : Image) (directory : Whereabouts) :
    (count position : Nat) → Option (List Entry)
  | 0, _ => some []
  | count + 1, position => do
    let (entry, next) ← entryAt? image position
    let entry := entry.shifted directory.shift
    if entry.header < directory.start then
      return entry :: (← entries? image directory count next)
    else none

/-- Replaces the entry of the same name, or adds one at the end. -/
def insertEntry (entry : Entry) : List Entry → List Entry
  | [] => [entry]
  | other :: rest =>
    if other.name = entry.name then entry :: rest else other :: insertEntry entry rest

/-- Reads the directory at a place where it may be. -/
def readDirectory? (image : Image) (directory : Whereabouts) : Option (List Entry) :=
  (entries? image directory directory.count directory.start).map fun entries =>
    entries.foldl (fun known entry => insertEntry entry known) []

/-- The directory of an archive: the first one that can be read. -/
def directory? (image : Image) : Option (List Entry) :=
  (candidates image).findSome? (readDirectory? image)

end Bytescript.Archive
