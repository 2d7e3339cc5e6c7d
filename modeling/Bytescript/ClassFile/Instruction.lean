import Bytescript.ClassFile.Constant

/-!
# Instructions

An instruction is given by what it does: the many opcodes that differ only in the kind of value
they work on, or in how an operand is stored, are one form here.  Branch targets are offsets into
the bytecode of the method.
-/

set_option autoImplicit false

namespace Bytescript

/-- What a stack slot or a local variable can hold. -/
inductive Kind where
  | int | long | float | double | reference
  deriving DecidableEq

/-- The kinds of array elements that have instructions of their own. -/
inductive ElementKind where
  | int | long | float | double | reference | byte | char | short
  deriving DecidableEq

/-- The kinds of numbers. -/
inductive Numeric where
  | int | long | float | double
  deriving DecidableEq

/-- The kinds of whole numbers. -/
inductive Integral where
  | int | long
  deriving DecidableEq

/-- Arithmetic on two numbers. -/
inductive ArithmeticOp where
  | add | sub | mul | div | rem
  deriving DecidableEq

/-- Shifts by an amount. -/
inductive ShiftOp where
  | left | right | unsignedRight
  deriving DecidableEq

/-- Operations on the bits of two whole numbers. -/
inductive BitwiseOp where
  | and | or | xor
  deriving DecidableEq

/-- Conversions between kinds of numbers, and from an int to a narrower range. -/
inductive Conversion where
  | intToLong | intToFloat | intToDouble
  | longToInt | longToFloat | longToDouble
  | floatToInt | floatToLong | floatToDouble
  | doubleToInt | doubleToLong | doubleToFloat
  | intToByte | intToChar | intToShort
  deriving DecidableEq

/-- Comparisons that give -1, 0 or 1.  The last four differ in what they give for a NaN. -/
inductive ThreeWay where
  | long | floatLess | floatGreater | doubleLess | doubleGreater
  deriving DecidableEq

/-- Conditions between two ints. -/
inductive Comparison where
  | equal | notEqual | less | greaterOrEqual | greater | lessOrEqual
  deriving DecidableEq

/-- Rearrangements of the top of the stack. -/
inductive Shuffle where
  | dup | dupX1 | dupX2 | dup2 | dup2X1 | dup2X2 | swap
  deriving DecidableEq

/-- The element types of primitive arrays. -/
inductive ArrayType where
  | boolean | char | float | double | byte | short | int | long
  deriving DecidableEq

/-- The letter of the element type. -/
def ArrayType.letter : ArrayType → Char
  | boolean => 'Z'
  | char => 'C'
  | float => 'F'
  | double => 'D'
  | byte => 'B'
  | short => 'S'
  | int => 'I'
  | long => 'J'

/-- The kind of a kind of numbers. -/
def Numeric.kind : Numeric → Kind
  | int => .int
  | long => .long
  | float => .float
  | double => .double

/-- The kind of a kind of whole numbers. -/
def Integral.kind : Integral → Kind
  | int => .int
  | long => .long

/-- The kind that an element has on the stack. -/
def ElementKind.kind : ElementKind → Kind
  | int | byte | char | short => .int
  | long => .long
  | float => .float
  | double => .double
  | reference => .reference

/-- The kinds whose values count as two words of the stack. -/
def Kind.isWide : Kind → Bool
  | long | double => true
  | int | float | reference => false

/-- How many words of the stack a value of the kind counts as. -/
def Kind.words (kind : Kind) : Nat := if kind.isWide then 2 else 1

/-- An instruction. -/
inductive Instruction where
  | nop
  | constNull
  /-- The int constants that are part of the instruction. -/
  | constInt (value : Int32)
  | constLong (value : Nat)
  | constFloat (value : Nat)
  | constDouble (value : Nat)
  | loadConstant (value : Loadable)
  | load (kind : Kind) (index : Nat)
  | store (kind : Kind) (index : Nat)
  | arrayLoad (element : ElementKind)
  | arrayStore (element : ElementKind)
  | pop
  | pop2
  | shuffle (how : Shuffle)
  | arithmetic (op : ArithmeticOp) (on : Numeric)
  | negate (on : Numeric)
  | shift (op : ShiftOp) (on : Integral)
  | bitwise (op : BitwiseOp) (on : Integral)
  | increment (index : Nat) (delta : Int)
  | convert (conversion : Conversion)
  | compare (how : ThreeWay)
  /-- Branches if an int compares with zero. -/
  | ifZero (condition : Comparison) (target : Nat)
  /-- Branches if two ints compare. -/
  | ifCompare (condition : Comparison) (target : Nat)
  /-- Branches if two references are the same, or are not. -/
  | ifSame (equal : Bool) (target : Nat)
  /-- Branches if a reference is null, or is not. -/
  | ifNull (equal : Bool) (target : Nat)
  | goto (target : Nat)
  | jumpSubroutine (target : Nat)
  | returnSubroutine (index : Nat)
  | tableSwitch (default : Nat) (low high : Int32) (targets : List Nat)
  | lookupSwitch (default : Nat) (pairs : List (Int32 × Nat))
  /-- Leaves the method, with a value unless it gives none. -/
  | leave (kind : Option Kind)
  | getStatic (field : MemberRef)
  | putStatic (field : MemberRef)
  | getField (field : MemberRef)
  | putField (field : MemberRef)
  | invokeVirtual (method : MemberRef)
  | invokeSpecial (method : MemberRef) (isInterface : Bool)
  | invokeStatic (method : MemberRef) (isInterface : Bool)
  | invokeInterface (method : MemberRef)
  | invokeDynamic (index : Nat)
  | new (name : ClassName)
  | newArray (element : ArrayType)
  | newReferenceArray (element : ClassName)
  | newMultiArray (type : ClassName) (dimensions : Nat)
  | arrayLength
  | throw
  | checkCast (name : ClassName)
  | instanceOf (name : ClassName)
  | monitorEnter
  | monitorExit
  deriving DecidableEq

namespace Instruction

/-- The offsets an instruction may jump to, apart from the next instruction. -/
def branchTargets : Instruction → List Nat
  | ifZero _ target | ifCompare _ target | ifSame _ target | ifNull _ target => [target]
  | goto target | jumpSubroutine target => [target]
  | tableSwitch default _ _ targets => default :: targets
  | lookupSwitch default pairs => default :: pairs.map Prod.snd
  | _ => []

/-- Whether execution can go on with the next instruction. -/
def fallsThrough : Instruction → Bool
  | goto _ | jumpSubroutine _ | returnSubroutine _ => false
  | tableSwitch _ _ _ _ | lookupSwitch _ _ => false
  | leave _ | throw => false
  | _ => true

end Instruction

/-- An instruction where it stands: its offset in the bytecode, and the byte there, which for
instructions with wide operands is the one that announces them. -/
structure Placed where
  offset : Nat
  opcode : Nat
  instruction : Instruction
  deriving DecidableEq

end Bytescript
