import Bytescript.Binary.Word
import Bytescript.Failure

/-!
# Assembling bytecode

An assembler takes instructions one after the other and gives their bytes.  Branches name labels,
which may be bound to a position before or after; the distances are filled in at the end, which
fails if a label was never bound or is too far away.  The assembler also pads switches.  Code is
a list of pieces, whose sizes are known before the labels are.
-/

set_option autoImplicit false

namespace Bytescript.Assembly

open Binary

/-- A position in the code that may be bound later, by its number. -/
abbrev Label : Type := Nat

/-- A piece of code: bytes, or the distance from an opcode to a label in two or four bytes. -/
inductive Piece where
  | bytes (contents : List UInt8)
  | distance (origin : Nat) (label : Label) (isWide : Bool)
  deriving DecidableEq

/-- How many bytes a piece has. -/
def Piece.size : Piece → Nat
  | bytes contents => contents.length
  | distance _ _ isWide => if isWide then 4 else 2

/-- Code that is being assembled: its pieces, and the positions of the labels that are bound. -/
structure Assembler where
  pieces : Array Piece
  labels : Array (Option Nat)

namespace Assembler

/-- The opcode of a constant of one byte. -/
def byteOpcode : UInt8 := 0x10

/-- The opcode of a constant of two bytes. -/
def shortOpcode : UInt8 := 0x11

/-- The opcode that adds to a local variable. -/
def incrementOpcode : UInt8 := 0x84

/-- The opcode of a switch over a range of keys. -/
def tableSwitchOpcode : UInt8 := 0xaa

/-- The opcode of a switch over listed keys. -/
def lookupSwitchOpcode : UInt8 := 0xab

/-- The opcode that calls a method of an interface. -/
def interfaceCallOpcode : UInt8 := 0xb9

/-- No code and no labels. -/
def empty : Assembler := ⟨#[], #[]⟩

/-- The position after all code so far. -/
def position (assembler : Assembler) : Nat :=
  assembler.pieces.toList.foldl (fun position piece => position + piece.size) 0

/-- Adds a piece. -/
def add (assembler : Assembler) (piece : Piece) : Assembler :=
  { assembler with pieces := assembler.pieces.push piece }

/-- Adds pieces. -/
def addAll (assembler : Assembler) (pieces : List Piece) : Assembler :=
  pieces.foldl add assembler

/-! ## Labels -/

/-- Makes a label. -/
def newLabel (assembler : Assembler) : Label × Assembler :=
  (assembler.labels.size, { assembler with labels := assembler.labels.push none })

/-- Binds a label to the current position. -/
def bind (assembler : Assembler) (label : Label) : Assembler :=
  { assembler with
    labels := assembler.labels.setIfInBounds label (some assembler.position) }

/-- The position that a label is bound to. -/
def offset? (assembler : Assembler) (label : Label) : Option Nat :=
  assembler.labels.getD label none

/-- Fails because of a label. -/
def reject {α : Type} (error : AssemblyError) : Except Failure α :=
  .error (.of (.assembly error))

/-- The position that a label is bound to, as far as sixteen bits can say it. -/
def offset (assembler : Assembler) (label : Label) : Except Failure Nat :=
  match assembler.offset? label with
  | some offset => .ok (offset % 0x10000)
  | none => reject (.labelNotBound label)

/-! ## Instructions -/

/-- Adds bytes as they are. -/
def bytes (assembler : Assembler) (contents : List UInt8) : Assembler :=
  assembler.add (.bytes contents)

/-- Adds an opcode. -/
def op (assembler : Assembler) (opcode : UInt8) : Assembler := assembler.bytes [opcode]

/-- Adds an opcode with an operand of one byte. -/
def opByte (assembler : Assembler) (opcode operand : UInt8) : Assembler :=
  assembler.bytes [opcode, operand]

/-- Adds an opcode with an operand of two bytes. -/
def opWord (assembler : Assembler) (opcode : UInt8) (operand : UInt16) : Assembler :=
  assembler.bytes (opcode :: bigEndianBytes 2 operand.toNat)

/-- Adds a constant of one byte. -/
def byteConstant (assembler : Assembler) (value : Int8) : Assembler :=
  assembler.opByte byteOpcode value.toUInt8

/-- Adds a constant of two bytes. -/
def shortConstant (assembler : Assembler) (value : Int16) : Assembler :=
  assembler.opWord shortOpcode value.toUInt16

/-- Adds an instruction that adds to a local variable. -/
def increment (assembler : Assembler) (index : UInt8) (delta : Int8) : Assembler :=
  assembler.bytes [incrementOpcode, index, delta.toUInt8]

/-- Adds a call of a method of an interface. -/
def invokeInterface (assembler : Assembler) (index : UInt16) (count : UInt8) : Assembler :=
  assembler.bytes (interfaceCallOpcode :: bigEndianBytes 2 index.toNat ++ [count, 0])

/-- Adds a branch with a distance of two bytes. -/
def branch (assembler : Assembler) (opcode : UInt8) (label : Label) : Assembler :=
  assembler.addAll [.bytes [opcode], .distance assembler.position label false]

/-- Adds a branch with a distance of four bytes. -/
def wideBranch (assembler : Assembler) (opcode : UInt8) (label : Label) : Assembler :=
  assembler.addAll [.bytes [opcode], .distance assembler.position label true]

/-- The bytes that fill a switch up to a multiple of four, after an opcode at a position. -/
def padding (position : Nat) : List UInt8 :=
  List.replicate ((4 - (position + 1) % 4) % 4) 0

/-- A word of four bytes. -/
def word (value : Int32) : Piece := .bytes (bigEndianBytes 4 value.toUInt32.toNat)

/-- Adds a switch over a range of keys. -/
def tableSwitch (assembler : Assembler) (default : Label) (low : Int32) (targets : List Label) :
    Assembler :=
  let origin := assembler.position
  let high := low + Int32.ofNat targets.length - 1
  assembler.addAll ([.bytes (tableSwitchOpcode :: padding origin),
      .distance origin default true, word low, word high]
    ++ targets.map fun target => .distance origin target true)

/-- Adds a switch over listed keys. -/
def lookupSwitch (assembler : Assembler) (default : Label) (pairs : List (Int32 × Label)) :
    Assembler :=
  let origin := assembler.position
  assembler.addAll ([.bytes (lookupSwitchOpcode :: padding origin),
      .distance origin default true, word (Int32.ofNat pairs.length)]
    ++ pairs.flatMap fun (key, target) => [word key, .distance origin target true])

/-! ## The finished code -/

/-- The bytes of a piece, once all labels are bound. -/
def resolve (assembler : Assembler) : Piece → Except Failure (List UInt8)
  | .bytes contents => .ok contents
  | .distance origin label isWide =>
    match assembler.offset? label with
    | none => reject (.labelNeverBound label)
    | some target =>
      let distance := (target : Int) - origin
      if isWide then .ok (bigEndianBytes 4 (wordOfInt 32 distance))
      else if -0x8000 ≤ distance ∧ distance < 0x8000 then
        .ok (bigEndianBytes 2 (wordOfInt 16 distance))
      else reject (.branchTooFar origin target)

/-- The bytes of all code. -/
def finish (assembler : Assembler) : Except Failure (List UInt8) := do
  return (← assembler.pieces.toList.mapM assembler.resolve).flatten

end Assembler

end Bytescript.Assembly
