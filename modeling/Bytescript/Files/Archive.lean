import Bytescript.Files.Archive.Directory
import Bytescript.Program.Loader

/-!
# Archives of class files

The classes of an archive are the files whose names end in `.class`, in the order of the
directory.  When an archive is opened, all its files are opened too: each must have its header,
and none may be encrypted.  The content is asked for of classes alone.  It is taken as it is
stored, and so no class may be packed.
-/

set_option autoImplicit false

namespace Bytescript.Archive

open Binary

/-- The way of packing that leaves the content as it is. -/
def unpacked : Nat := 0

/-- The ways of packing that a file may have if nobody asks for its content. -/
def knownPackings : List Nat := [unpacked, 8, 9, 12, 14, 93, 95, sealedPacking]

/-- Where the content of a file begins, after its header. -/
def contentStart? (image : Image) (entry : Entry) : Option Nat := do
  if image.hasAt fileSignature entry.header then
    let nameLength ← image.number? (entry.header + 26) 2
    let extraLength ← image.number? (entry.header + 28) 2
    return entry.header + 30 + nameLength + extraLength
  else none

/-- Opens the file of an entry: gives where its content begins. -/
def opened (image : Image) (entry : Entry) : Except InputError Nat :=
  if entry.isEncrypted then .error .encryptedFile
  else
    match contentStart? image entry with
    | none => .error .missingHeader
    | some start =>
      if entry.packing ∉ knownPackings then .error .packedFile
      else if entry.isSealed then .error .sealedFile
      else .ok start

/-- The class that an entry holds, if any.  The content of a class may be cut off by the end of the
archive, but it must agree with its check. -/
def classOf (path : String) (image : Image) (entry : Entry) :
    Except Failure (Option (ClassName × List UInt8)) :=
  match opened image entry, ClassName.fileStem? entry.name with
  | .error error, _ => .error (.of (.input error))
  | .ok _, none => .ok none
  | .ok start, some stem =>
    let content := (image.extract start (start + entry.packedSize)).toList
    if entry.packing ≠ unpacked then .error (.of (.input .packedFile))
    else if checksum content = entry.check then .ok (some (⟨stem⟩, content))
    else during (.readingEntry stem path) (.error (.of (.input .wrongCheck)))

/-- The classes of an archive that was read from a path. -/
def classes (path : String) (bytes : List UInt8) : Except Failure ClassStore := do
  let image := bytes.toArray
  match directory? image with
  | none => .error (.of (.input (.unreadableArchive path)))
  | some entries =>
    let found ← entries.mapM (classOf path image)
    return .ofList (found.filterMap id)

end Bytescript.Archive
