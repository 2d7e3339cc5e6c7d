import Bytescript.Binary.Word

/-!
# The bytes of an archive

An archive is read by positions: records say where other records are.  All its numbers have
their lowest byte first, and every kind of record begins with a signature of its own.
-/

set_option autoImplicit false

namespace Bytescript.Archive

open Binary

/-- The bytes of an archive. -/
abbrev Image : Type := Array UInt8

namespace Image

/-- The bytes from a position on, if there are as many. -/
def slice? (image : Image) (start length : Nat) : Option (List UInt8) :=
  if start + length ≤ image.size then some (image.extract start (start + length)).toList else none

/-- The number of some bytes at a position. -/
def number? (image : Image) (start width : Nat) : Option Nat :=
  (image.slice? start width).map littleEndian

/-- Whether a record that begins with a signature is at a position. -/
def hasAt (image : Image) (signature position : Nat) : Bool :=
  image.number? position 4 == some signature

/-- The positions of a signature between two others, in order.  All of it lies between them. -/
def positions (image : Image) (signature start stop : Nat) : List Nat :=
  (List.range' start (stop - 3 - start)).filter (image.hasAt signature)

end Image

/-- What the header of a file begins with. -/
def fileSignature : Nat := 0x04034b50

/-- What an entry of the directory begins with. -/
def entrySignature : Nat := 0x02014b50

/-- What the record at the end begins with. -/
def endSignature : Nat := 0x06054b50

/-- What the wide record before that one begins with. -/
def wideEndSignature : Nat := 0x06064b50

/-- What the record that leads to the wide one begins with. -/
def locatorSignature : Nat := 0x07064b50

end Bytescript.Archive
