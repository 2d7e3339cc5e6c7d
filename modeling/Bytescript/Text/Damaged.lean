import Bytescript.Text.Utf8

/-!
# Texts with damaged spots

Not every file that should be a text in UTF-8 is one.  Here the bytes of a file are cut into
characters and damaged spots, so that a reader can go on behind the damage.  A damaged spot is
either a character that breaks off, with all bytes that it still has, or a single byte that
begins no character.
-/

set_option autoImplicit false

namespace Bytescript.Text

/-- A piece of a file: a character, or a damaged spot with its bytes. -/
inductive Piece where
  | char (char : Char)
  | damage (bytes : List UInt8)
  deriving DecidableEq

/-- Reads the character that begins right here, if one does, and gives how many bytes it takes. -/
def firstCharacter? (bytes : List UInt8) : Option (Char × Nat) :=
  [1, 2, 3, 4].findSome? fun length =>
    match decodeStandard (bytes.take length) with
    | some [point] => point.toChar?.map fun char => (char, length)
    | _ => none

/-- The bytes that a character which breaks off has after its first one. -/
def brokenTail (first : UInt8) (rest : List UInt8) : List UInt8 :=
  match standardTail first, rest with
  | some (_, low, high), second :: rest =>
    if between low high second then second :: rest.takeWhile isContinuation else []
  | _, _ => []

/-- The first piece of some bytes, and the bytes behind it. -/
def firstPiece (first : UInt8) (rest : List UInt8) : Piece × List UInt8 :=
  match firstCharacter? (first :: rest) with
  | some (char, length) => (.char char, rest.drop (length - 1))
  | none =>
    let tail := brokenTail first rest
    (.damage (first :: tail), rest.drop tail.length)

/-- The pieces of some bytes, up to a number of them. -/
def piecesUpTo : (count : Nat) → List UInt8 → List Piece
  | 0, _ => []
  | _, [] => []
  | count + 1, first :: rest =>
    let (piece, rest) := firstPiece first rest
    piece :: piecesUpTo count rest

/-- The pieces of some bytes.  No piece is empty, so there are not more pieces than bytes. -/
def pieces (bytes : List UInt8) : List Piece := piecesUpTo bytes.length bytes

/-- What stands in a text for a damaged spot. -/
def replacement : Char := '\ufffd'

/-- The text of some bytes, with one replacement for each damaged spot. -/
def mendedText (bytes : List UInt8) : String :=
  String.ofList <| (pieces bytes).map fun
    | .char char => char
    | .damage _ => replacement

/-- The characters of some bytes.  Each byte of a damaged spot is none. -/
def charsAmidDamage (bytes : List UInt8) : List (Option Char) :=
  (pieces bytes).flatMap fun
    | .char char => [some char]
    | .damage bytes => bytes.map fun _ => none

/-- The text of some bytes without any damage. -/
def text? (bytes : List UInt8) : Option String :=
  (decodeStandard bytes).bind fun points => (JavaString.mk points).toString?

end Bytescript.Text
