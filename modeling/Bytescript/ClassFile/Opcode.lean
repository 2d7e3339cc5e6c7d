import Bytescript.ClassFile.Instruction

/-!
# Opcodes

The opcodes are numbered in groups: all loads after each other, each kind of array access next to
its siblings, and so on.  This module lists what every opcode stands for, in the order of the
numbers, as a form: the instruction itself if there are no operands, and otherwise what the
operands are and which instruction they make.
-/

set_option autoImplicit false

namespace Bytescript

/-- The operands that follow an opcode, and the instruction they make. -/
inductive Form where
  | plain (instruction : Instruction)
  | byteConstant
  | shortConstant
  | smallPoolIndex
  | poolIndex
  | localVariable (make : Nat → Instruction)
  | increment
  | branch (make : Nat → Instruction)
  | wideBranch (make : Nat → Instruction)
  | tableSwitch
  | lookupSwitch
  | field (make : MemberRef → Instruction)
  | method (make : MemberRef → Bool → Instruction)
  | interfaceMethod
  | dynamicCall
  | classOperand (make : ClassName → Instruction)
  | primitiveArray
  | multiArray
  | wide

namespace Form

/-- The kinds in the order in which groups of opcodes list them. -/
def kinds : List Kind := [.int, .long, .float, .double, .reference]

/-- The element kinds in the order of the array opcodes. -/
def elements : List ElementKind :=
  [.int, .long, .float, .double, .reference, .byte, .char, .short]

/-- The number kinds in the order of the arithmetic opcodes. -/
def numerics : List Numeric := [.int, .long, .float, .double]

/-- The whole number kinds in the order of the shift opcodes. -/
def integrals : List Integral := [.int, .long]

/-- The conditions in the order of the branch opcodes. -/
def comparisons : List Comparison :=
  [.equal, .notEqual, .less, .greaterOrEqual, .greater, .lessOrEqual]

/-- The loads or stores of the first four local variables, kind by kind. -/
def shortAccess (make : Kind → Nat → Instruction) : List Form :=
  kinds.flatMap fun kind => [0, 1, 2, 3].map fun index => plain (make kind index)

/-- Opcodes 0x00 to 0x14: constants. -/
def constants : List Form :=
  [plain .nop, plain .constNull]
    ++ [-1, 0, 1, 2, 3, 4, 5].map (fun value => plain (.constInt value))
    ++ [0, 1].map (fun value => plain (.constLong value))
    ++ [0, 1, 2].map (fun value => plain (.constFloat value))
    ++ [0, 1].map (fun value => plain (.constDouble value))
    ++ [byteConstant, shortConstant, smallPoolIndex, poolIndex, poolIndex]

/-- Opcodes 0x15 to 0x56: loads and stores. -/
def accesses : List Form :=
  kinds.map (fun kind => localVariable (.load kind))
    ++ shortAccess .load
    ++ elements.map (fun element => plain (.arrayLoad element))
    ++ kinds.map (fun kind => localVariable (.store kind))
    ++ shortAccess .store
    ++ elements.map (fun element => plain (.arrayStore element))

/-- Opcodes 0x57 to 0x5f: the stack. -/
def stackForms : List Form :=
  [plain .pop, plain .pop2]
    ++ [.dup, .dupX1, .dupX2, .dup2, .dup2X1, .dup2X2, .swap].map
      (fun how => plain (.shuffle how))

/-- Opcodes 0x60 to 0x98: arithmetic, conversions and comparisons. -/
def computations : List Form :=
  [.add, .sub, .mul, .div, .rem].flatMap
      (fun op => numerics.map fun on => plain (.arithmetic op on))
    ++ numerics.map (fun on => plain (.negate on))
    ++ [.left, .right, .unsignedRight].flatMap
      (fun op => integrals.map fun on => plain (.shift op on))
    ++ [.and, .or, .xor].flatMap (fun op => integrals.map fun on => plain (.bitwise op on))
    ++ [increment]
    ++ [.intToLong, .intToFloat, .intToDouble, .longToInt, .longToFloat, .longToDouble,
        .floatToInt, .floatToLong, .floatToDouble, .doubleToInt, .doubleToLong, .doubleToFloat,
        .intToByte, .intToChar, .intToShort].map (fun conversion => plain (.convert conversion))
    ++ [.long, .floatLess, .floatGreater, .doubleLess, .doubleGreater].map
      (fun how => plain (.compare how))

/-- Opcodes 0x99 to 0xb1: branches and returns. -/
def transfers : List Form :=
  comparisons.map (fun condition => branch (.ifZero condition))
    ++ comparisons.map (fun condition => branch (.ifCompare condition))
    ++ [branch (.ifSame true), branch (.ifSame false), branch .goto, branch .jumpSubroutine,
        localVariable .returnSubroutine, tableSwitch, lookupSwitch]
    ++ kinds.map (fun kind => plain (.leave (some kind)))
    ++ [plain (.leave none)]

/-- Opcodes 0xb2 to 0xc9: objects, and the wide forms. -/
def objects : List Form :=
  [field .getStatic, field .putStatic, field .getField, field .putField,
    method (fun method _ => .invokeVirtual method), method .invokeSpecial,
    method .invokeStatic, interfaceMethod, dynamicCall,
    classOperand .new, primitiveArray, classOperand .newReferenceArray,
    plain .arrayLength, plain .throw, classOperand .checkCast, classOperand .instanceOf,
    plain .monitorEnter, plain .monitorExit, wide, multiArray,
    branch (.ifNull true), branch (.ifNull false), wideBranch .goto, wideBranch .jumpSubroutine]

/-- All forms, in the order of the opcodes. -/
def all : List Form :=
  constants ++ accesses ++ stackForms ++ computations ++ transfers ++ objects

/-- The form of an opcode. -/
def ofOpcode? (opcode : Nat) : Option Form := all[opcode]?

end Form

/-- The element type of a primitive array, by the number that instructions use for it. -/
def ArrayType.ofTag? : Nat → Option ArrayType
  | 4 => some boolean
  | 5 => some char
  | 6 => some float
  | 7 => some double
  | 8 => some byte
  | 9 => some short
  | 10 => some int
  | 11 => some long
  | _ => none

end Bytescript
