import Bytescript.ClassFile.Basic

/-!
# Names for listings

How a listing of a class file names its instructions and flags.  An instruction is named by what
it does and by the letter of the kind it works on; forms of the same instruction that only store
their operands differently share one name.  The opcode tells apart the ways to load a small int.
-/

set_option autoImplicit false

namespace Bytescript

/-! ## Letters and words -/

/-- The letter of a kind in the names of instructions. -/
def Kind.letter : Kind → String
  | int => "I"
  | long => "L"
  | float => "F"
  | double => "D"
  | reference => "A"

/-- The letter of a kind of elements in the names of instructions. -/
def ElementKind.letter : ElementKind → String
  | byte => "B"
  | char => "C"
  | short => "S"
  | other => other.kind.letter

/-- The word for an operation on numbers. -/
def ArithmeticOp.word : ArithmeticOp → String
  | add => "Add"
  | sub => "Sub"
  | mul => "Mul"
  | div => "Div"
  | rem => "Rem"

/-- The word for a shift. -/
def ShiftOp.word : ShiftOp → String
  | left => "Shl"
  | right => "Shr"
  | unsignedRight => "UShr"

/-- The word for an operation on bits. -/
def BitwiseOp.word : BitwiseOp → String
  | and => "And"
  | or => "Or"
  | xor => "Xor"

/-- The name of a conversion. -/
def Conversion.name : Conversion → String
  | intToLong => "I2L"
  | intToFloat => "I2F"
  | intToDouble => "I2D"
  | longToInt => "L2I"
  | longToFloat => "L2F"
  | longToDouble => "L2D"
  | floatToInt => "F2I"
  | floatToLong => "F2L"
  | floatToDouble => "F2D"
  | doubleToInt => "D2I"
  | doubleToLong => "D2L"
  | doubleToFloat => "D2F"
  | intToByte => "I2B"
  | intToChar => "I2C"
  | intToShort => "I2S"

/-- The name of a comparison that gives a number. -/
def ThreeWay.name : ThreeWay → String
  | long => "LCmp"
  | floatLess => "FCmpL"
  | floatGreater => "FCmpG"
  | doubleLess => "DCmpL"
  | doubleGreater => "DCmpG"

/-- The word for a condition. -/
def Comparison.word : Comparison → String
  | equal => "Eq"
  | notEqual => "Ne"
  | less => "Lt"
  | greaterOrEqual => "Ge"
  | greater => "Gt"
  | lessOrEqual => "Le"

/-- The name of a rearrangement of the stack. -/
def Shuffle.name : Shuffle → String
  | dup => "Dup"
  | dupX1 => "DupX1"
  | dupX2 => "DupX2"
  | dup2 => "Dup2"
  | dup2X1 => "Dup2X1"
  | dup2X2 => "Dup2X2"
  | swap => "Swap"

/-! ## Instructions -/

/-- The name of an instruction that loads an int, by its opcode. -/
def intConstantName (opcode : Nat) (value : Int32) : String :=
  if opcode = 0x10 then "BiPush"
  else if opcode = 0x11 then "SiPush"
  else if value.toInt < 0 then "IConstM1"
  else "IConst" ++ toString value.toInt

/-- The name of an instruction with an opcode. -/
def Instruction.name (opcode : Nat) : Instruction → String
  | nop => "Nop"
  | constNull => "AConstNull"
  | constInt value => intConstantName opcode value
  | constLong value => "LConst" ++ toString value
  | constFloat value => "FConst" ++ toString value
  | constDouble value => "DConst" ++ toString value
  | loadConstant _ => "Ldc"
  | load kind _ => kind.letter ++ "Load"
  | store kind _ => kind.letter ++ "Store"
  | arrayLoad element => element.letter ++ "ALoad"
  | arrayStore element => element.letter ++ "AStore"
  | pop => "Pop"
  | pop2 => "Pop2"
  | shuffle how => how.name
  | arithmetic op on => on.kind.letter ++ op.word
  | negate on => on.kind.letter ++ "Neg"
  | shift op on => on.kind.letter ++ op.word
  | bitwise op on => on.kind.letter ++ op.word
  | increment _ _ => "IInc"
  | convert conversion => conversion.name
  | compare how => how.name
  | ifZero condition _ => "If" ++ condition.word
  | ifCompare condition _ => "IfICmp" ++ condition.word
  | ifSame equal _ => if equal then "IfACmpEq" else "IfACmpNe"
  | ifNull equal _ => if equal then "IfNull" else "IfNonNull"
  | goto _ => "Goto"
  | jumpSubroutine _ => "Jsr"
  | returnSubroutine _ => "Ret"
  | tableSwitch _ _ _ _ => "TableSwitch"
  | lookupSwitch _ _ => "LookupSwitch"
  | leave (some kind) => kind.letter ++ "Return"
  | leave none => "Return"
  | getStatic _ => "GetStatic"
  | putStatic _ => "PutStatic"
  | getField _ => "GetField"
  | putField _ => "PutField"
  | invokeVirtual _ => "InvokeVirtual"
  | invokeSpecial _ _ => "InvokeSpecial"
  | invokeStatic _ _ => "InvokeStatic"
  | invokeInterface _ => "InvokeInterface"
  | invokeDynamic _ => "InvokeDynamic"
  | new _ => "New"
  | newArray _ => "NewArray"
  | newReferenceArray _ => "ANewArray"
  | newMultiArray _ _ => "MultiANewArray"
  | arrayLength => "ArrayLength"
  | throw => "AThrow"
  | checkCast _ => "CheckCast"
  | instanceOf _ => "InstanceOf"
  | monitorEnter => "MonitorEnter"
  | monitorExit => "MonitorExit"

/-- The name of an instruction where it stands. -/
def Placed.name (placed : Placed) : String := placed.instruction.name placed.opcode

/-! ## Flags -/

/-- The names of the flags that are set. -/
def setNames (flags : List (String × Bool)) : List String :=
  (flags.filter Prod.snd).map Prod.fst

/-- The names of the flags of a class. -/
def ClassAccess.names (access : ClassAccess) : List String :=
  setNames [("public", access.isPublic), ("final", access.isFinal),
    ("interface", access.isInterface), ("abstract", access.isAbstract)]

/-- The names of the flags of a field. -/
def FieldAccess.names (access : FieldAccess) : List String :=
  setNames [("public", access.isPublic), ("private", access.isPrivate),
    ("static", access.isStatic), ("final", access.isFinal)]

/-- The names of the flags of a method. -/
def MethodAccess.names (access : MethodAccess) : List String :=
  setNames [("public", access.isPublic), ("private", access.isPrivate),
    ("static", access.isStatic), ("final", access.isFinal),
    ("synchronized", access.isSynchronized), ("native", access.isNative),
    ("abstract", access.isAbstract)]

end Bytescript
