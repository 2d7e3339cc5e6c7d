import Bytescript.Binary.Word
import Bytescript.Failure

/-!
# Reading bytes

A reader takes bytes off the front of what is left and keeps count of how many were taken before.
It fails if the data ends too early, and says where: a read of several bytes names the position
it started at, a skip names the end of the data.
-/

set_option autoImplicit false

namespace Bytescript.Binary

/-- The bytes that are left, and how many came before them. -/
structure Cursor where
  position : Nat
  rest : List UInt8
  deriving DecidableEq

/-- The start of some data. -/
def Cursor.start (bytes : List UInt8) : Cursor := ⟨0, bytes⟩

/-- A computation that takes bytes off a cursor. -/
abbrev Reader (α : Type) : Type := StateT Cursor (Except Failure) α

namespace Reader

variable {α : Type}

/-- Runs a reader on some data from its start. -/
def runOn (reader : Reader α) (bytes : List UInt8) : Except Failure (α × Cursor) :=
  reader (.start bytes)

/-- A reader that takes nothing. -/
def ofExcept (result : Except Failure α) : Reader α := fun cursor =>
  match result with
  | .ok value => .ok (value, cursor)
  | .error failure => .error failure

/-- Fails because the data is malformed. -/
def malformed (error : DecodeError) : Reader α := ofExcept (failDecode error)

/-- Fails because a rule of class files is broken. -/
def reject (error : ClassFormatError) : Reader α := ofExcept (.error (.of (.format error)))

/-- Adds an activity to the failures of a reader. -/
def within (activity : Activity) (reader : Reader α) : Reader α := fun cursor =>
  during activity (reader cursor)

/-- How many bytes were taken so far. -/
def position : Reader Nat := fun cursor => .ok (cursor.position, cursor)

/-- Takes the given number of bytes. -/
def take (count : Nat) : Reader (List UInt8) := fun cursor =>
  match splitExactly? count cursor.rest with
  | some (bytes, rest) => .ok (bytes, ⟨cursor.position + count, rest⟩)
  | none => failDecode (.truncated cursor.position)

/-- Passes over the given number of bytes. -/
def skip (count : Nat) : Reader Unit := fun cursor =>
  match splitExactly? count cursor.rest with
  | some (_, rest) => .ok ((), ⟨cursor.position + count, rest⟩)
  | none => failDecode (.truncated (cursor.position + cursor.rest.length))

/-- Reads a word as a natural number. -/
def word (type : WordType) : Reader Nat := fun cursor =>
  match (take type.bytes).within (.readingWord type) cursor with
  | .ok (bytes, cursor) => .ok (bigEndian bytes, cursor)
  | .error failure => .error failure

/-- Reads an unsigned word of the given number of bytes. -/
def unsigned (bytes : Nat) : Reader Nat := word ⟨bytes, false⟩

/-- Reads a signed word of the given number of bytes. -/
def signed (bytes : Nat) : Reader Int := do
  return twosComplement (8 * bytes) (← word ⟨bytes, true⟩)

/-- Reads one byte as a number. -/
def u8 : Reader Nat := unsigned 1

/-- Reads a word of two bytes. -/
def u16 : Reader Nat := unsigned 2

/-- Reads a word of four bytes. -/
def u32 : Reader Nat := unsigned 4

/-- Reads a word of eight bytes. -/
def u64 : Reader Nat := unsigned 8

/-- Reads a signed word of four bytes. -/
def i32 : Reader Int32 := do return Int32.ofInt (← signed 4)

/-- Reads a signed word of eight bytes. -/
def i64 : Reader Int64 := do return Int64.ofInt (← signed 8)

/-- Runs a reader a number of times. -/
def times (item : Reader α) : (count : Nat) → Reader (List α)
  | 0 => pure []
  | count + 1 => do
    let first ← item
    let rest ← times item count
    return first :: rest

/-- Reads a count of two bytes and then as many items. -/
def counted (item : Reader α) : Reader (List α) := do
  times item (← u16)

/-- Whether all data was taken. -/
def atEnd : Reader Bool := fun cursor => .ok (cursor.rest.isEmpty, cursor)

end Reader

end Bytescript.Binary
