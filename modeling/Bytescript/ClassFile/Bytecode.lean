import Bytescript.Binary.Reader
import Bytescript.ClassFile.Basic
import Bytescript.ClassFile.Opcode

/-!
# Decoding bytecode

The bytecode of a method is a row of instructions without gaps.  Operands that name pool entries
are resolved, and branches are turned from distances into offsets, which must lie inside the
code.  Positions count from the start of the bytecode; the offset of an instruction is kept in
sixteen bits, since code is never longer than that in a class file.
-/

set_option autoImplicit false

namespace Bytescript

open Binary

namespace Bytecode

/-- What decoding an instruction depends on besides its operands: the pool, the length of the
code, and the offset of the opcode. -/
structure Site where
  pool : ConstantPool
  codeLength : Nat
  offset : Nat

/-- The offset that a branch of a given distance leads to. -/
def Site.target (site : Site) (distance : Int) : Except Failure Nat :=
  let target := (site.offset : Int) + distance
  if target < 0 ∨ (site.codeLength : Int) ≤ target then
    failDecode (.branchOutOfRange site.offset target)
  else .ok (target.toNat % 0x10000)

/-- Reads a branch with a distance of the given number of bytes. -/
def readBranch (site : Site) (bytes : Nat) : Reader Nat := do
  Reader.ofExcept (site.target (← Reader.signed bytes))

/-- Passes over the bytes up to the next multiple of four. -/
def align : Reader Unit := do
  Reader.skip ((4 - (← Reader.position) % 4) % 4)

/-- Reads the operands of a switch over a range of keys. -/
def readTableSwitch (site : Site) : Reader Instruction := do
  align
  let default ← readBranch site 4
  let low ← Reader.i32
  let high ← Reader.i32
  if high.toInt < low.toInt then Reader.reject (.switchRange low.toInt high.toInt)
  else
    let targets ← Reader.times (readBranch site 4) (high.toInt - low.toInt + 1).toNat
    return .tableSwitch default low high targets

/-- Reads one key of a switch and where it leads. -/
def readCase (site : Site) : Reader (Int32 × Nat) := do
  let key ← Reader.i32
  let target ← readBranch site 4
  return (key, target)

/-- Reads the operands of a switch over listed keys. -/
def readLookupSwitch (site : Site) : Reader Instruction := do
  align
  let default ← readBranch site 4
  let count ← Reader.i32
  if count.toInt < 0 then Reader.reject (.switchCount count.toInt)
  else
    let pairs ← Reader.times (readCase site) count.toInt.toNat
    return .lookupSwitch default pairs

/-- Reads an instruction with wide operands, which starts with an opcode of its own. -/
def readWide (site : Site) : Reader Instruction := do
  let opcode ← Reader.u8
  match Form.ofOpcode? opcode with
  | some (.localVariable make) => return make (← Reader.u16)
  | some .increment =>
    let index ← Reader.u16
    let delta ← Reader.signed 2
    return .increment index delta
  | _ => Reader.malformed (.unknownOpcode opcode (site.offset + 1))

/-- Resolves the pool index that comes next. -/
def readPool {α : Type} (resolve : Nat → Except Failure α) : Reader α := do
  Reader.ofExcept (resolve (← Reader.u16))

/-- Reads the operands of a form and makes its instruction. -/
def readForm (site : Site) : Form → Reader Instruction
  | .plain instruction => return instruction
  | .byteConstant => return .constInt (Int32.ofInt (← Reader.signed 1))
  | .shortConstant => return .constInt (Int32.ofInt (← Reader.signed 2))
  | .smallPoolIndex => do
    return .loadConstant (← Reader.ofExcept (site.pool.loadableAt (← Reader.u8)))
  | .poolIndex => return .loadConstant (← readPool site.pool.loadableAt)
  | .localVariable make => return make (← Reader.u8)
  | .increment => do
    let index ← Reader.u8
    let delta ← Reader.signed 1
    return .increment index delta
  | .branch make => return make (← readBranch site 2)
  | .wideBranch make => return make (← readBranch site 4)
  | .tableSwitch => readTableSwitch site
  | .lookupSwitch => readLookupSwitch site
  | .field make => return make (← readPool site.pool.fieldRefAt)
  | .method make => do
    let (method, isInterface) ← readPool site.pool.methodRefAt
    return make method isInterface
  | .interfaceMethod => do
    let method ← readPool site.pool.interfaceMethodRefAt
    let _count ← Reader.u8
    let _zero ← Reader.u8
    return .invokeInterface method
  | .dynamicCall => do
    let index ← Reader.u16
    let _entry ← Reader.ofExcept (site.pool.get index)
    let _zero ← Reader.u8
    let _zero ← Reader.u8
    return .invokeDynamic index
  | .classOperand make => return make (← readPool site.pool.classNameAt)
  | .primitiveArray => do
    let tag ← Reader.u8
    match ArrayType.ofTag? tag with
    | some element => return .newArray element
    | none => Reader.reject (.unknownArrayType tag)
  | .multiArray => do
    let name ← readPool site.pool.classNameAt
    let dimensions ← Reader.u8
    return .newMultiArray name dimensions
  | .wide => readWide site

/-- Reads what follows an opcode. -/
def readOperands (site : Site) (opcode : Nat) : Reader Instruction :=
  match Form.ofOpcode? opcode with
  | some form => readForm site form
  | none => Reader.malformed (.unknownOpcode opcode site.offset)

/-- Reads one instruction. -/
def readInstruction (pool : ConstantPool) (codeLength : Nat) : Reader Placed := do
  let offset := (← Reader.position) % 0x10000
  let opcode ← Reader.u8
  let instruction ←
    (readOperands ⟨pool, codeLength, offset⟩ opcode).within (.instructionAt offset)
  return ⟨offset, opcode, instruction⟩

/-- Reads instructions up to the end of the data.  Each takes at least one byte, so as many steps
as there are bytes are enough. -/
def readAll (pool : ConstantPool) (codeLength : Nat) : (fuel : Nat) → Reader (List Placed)
  | 0 => pure []
  | fuel + 1 => do
    if ← Reader.atEnd then return []
    else
      let first ← readInstruction pool codeLength
      let rest ← readAll pool codeLength fuel
      return first :: rest

/-- Decodes the whole bytecode. -/
def decode (bytecode : List UInt8) (pool : ConstantPool) : Except Failure (List Placed) :=
  match (readAll pool bytecode.length bytecode.length).runOn bytecode with
  | .ok (instructions, _) => .ok instructions
  | .error failure => .error failure

end Bytecode

/-- Decodes the instructions of a method body. -/
def Code.decode (code : Code) (pool : ConstantPool) : Except Failure (List Placed) :=
  Bytecode.decode code.bytecode pool

end Bytescript
