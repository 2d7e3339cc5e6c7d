import Bytescript.Binary.Reader
import Bytescript.ClassFile.Pool
import Bytescript.Text.Utf8

/-!
# Reading a constant pool

A pool is stored as a count and the entries for the slots from one up to but not including the
count.  An entry that takes two slots leaves the second one empty, and there must be room for it.
-/

set_option autoImplicit false

namespace Bytescript

open Binary

namespace PoolEntry

/-- Reads two indices. -/
def readPair (make : Nat → Nat → PoolEntry JavaString) : Reader (PoolEntry JavaString) := do
  let first ← Reader.u16
  let second ← Reader.u16
  return make first second

/-- Reads one index. -/
def readIndex (make : Nat → PoolEntry JavaString) : Reader (PoolEntry JavaString) := do
  return make (← Reader.u16)

/-- Reads the text of a text entry, for the slot at an index. -/
def readText (index : Nat) : Reader (PoolEntry JavaString) := do
  let length ← Reader.u16
  let bytes ← Reader.take length
  match Text.readUtf8? bytes with
  | some text => return .utf8 text
  | none => Reader.malformed (.malformedUtf8 (index % 0x10000))

/-- Reads an entry for the slot at an index. -/
def read (index : Nat) : Reader (PoolEntry JavaString) := do
  match ← Reader.u8 with
  | 1 => readText index
  | 3 => return .integer (← Reader.i32)
  | 4 => return .float (UInt32.ofNat (← Reader.u32))
  | 5 => return .long (← Reader.i64)
  | 6 => return .double (UInt64.ofNat (← Reader.u64))
  | 7 => readIndex .classInfo
  | 8 => readIndex .string
  | 9 => readPair .fieldRef
  | 10 => readPair .methodRef
  | 11 => readPair .interfaceMethodRef
  | 12 => readPair .nameAndType
  | 15 =>
    let kind ← Reader.u8
    let reference ← Reader.u16
    return .methodHandle kind reference
  | 16 => readIndex .methodType
  | 17 => readPair .dynamic
  | 18 => readPair .invokeDynamic
  | 19 => readIndex .moduleInfo
  | 20 => readIndex .packageInfo
  | tag => Reader.malformed (.unknownPoolTag tag index)

end PoolEntry

namespace ConstantPool

/-- Reads the entries for the remaining slots of a pool with `count` slots. -/
def readSlots (count : Nat) :
    (remaining : Nat) → Reader (List (Option (PoolEntry JavaString)))
  | 0 => pure []
  | 1 => do
    let index := count - 1
    let entry ← (PoolEntry.read index).within (.poolEntry index)
    if entry.isWide then Reader.malformed (.poolIndexOutOfRange count count)
    else return [some entry]
  | remaining + 2 => do
    let index := count - (remaining + 2)
    let entry ← (PoolEntry.read index).within (.poolEntry index)
    if entry.isWide then return some entry :: none :: (← readSlots count remaining)
    else return some entry :: (← readSlots count (remaining + 1))

/-- Reads the count of slots and the entries. -/
def read : Reader ConstantPool := do
  let count ← Reader.u16
  if count = 0 then Reader.malformed (.poolIndexOutOfRange 0 0)
  else
    let slots ← readSlots count (count - 1)
    return ⟨(none :: slots).toArray⟩

end ConstantPool

end Bytescript
