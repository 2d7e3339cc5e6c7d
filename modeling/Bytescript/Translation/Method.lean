import Bytescript.ClassFile.Bytecode
import Bytescript.Translation.Block
import Bytescript.Translation.Structure

/-!
# Translating methods

A method with code becomes a function.  A static method is a global function; an instance method
is a property of the prototype of its class, and its first local variable is the object it is
called on.  The function begins by bringing its arguments into the ranges of their types, since
code outside of the program may call it with any numbers, and by declaring its variables.
-/

set_option autoImplicit false

namespace Bytescript.Translation

open Bytescript.Flow Script

/-- A method that was translated. -/
structure MethodCode where
  owner : ClassName
  name : String
  type : MethodType
  isStatic : Bool
  /-- The variables besides the parameters and the object. -/
  declared : List Variable
  body : Body
  /-- What the function needs from the support library. -/
  features : List Support.Feature

/-! ## Parameters -/

/-- The local variables of parameters, beginning with a given one. -/
def parameterSlots : (first : Nat) → List FieldType → List (Nat × FieldType)
  | _, [] => []
  | first, type :: rest => (first, type) :: parameterSlots (first + type.slots) rest

/-- The local variables of the parameters of a method.  The first one of an instance method is
the object. -/
def parametersOf (isStatic : Bool) (type : MethodType) : List (Nat × FieldType) :=
  parameterSlots (if isStatic then 0 else 1) type.parameters

/-- An argument brought into the range of its type, if its type has one. -/
def coercion? (argument : Expression) : FieldType → Option Expression
  | .primitive .float => some (roundFloat argument)
  | .primitive .long => some (.support .coerceLong [argument])
  | .primitive .double => none
  | .primitive _ => some (wrapInt argument)
  | .object _ | .array _ => none

/-- The statements that bring all arguments into the ranges of their types. -/
def coercions (parameters : List (Nat × FieldType)) : List Statement :=
  parameters.filterMap fun (slot, type) =>
    (coercion? (.read (.slot slot)) type).map (.assign (.slot slot))

/-! ## Variables -/

/-- The order in which kinds are declared. -/
def kindRank : Kind → Nat
  | .int => 0
  | .long => 1
  | .float => 2
  | .double => 3
  | .reference => 4

/-- The order in which variables are declared: local variables, then stack variables by their
kinds and depths, then temporaries. -/
def variableRank : Variable → Nat × Nat × Nat
  | .slot index => (0, index, 0)
  | .stack kind depth => (1, kindRank kind, depth)
  | .temporary number => (2, number, 0)
  | .caught => (3, 0, 0)

/-- Whether a variable is declared before another, or at the same place. -/
def declaredBefore (first second : Variable) : Bool :=
  let (group, major, minor) := variableRank first
  let (group', major', minor') := variableRank second
  group < group' || (group = group' && (major < major' || (major = major' && minor ≤ minor')))

/-- Whether a variable is the object or a parameter, and so is there from the start. -/
def isGiven (isStatic : Bool) (parameters : List (Nat × FieldType)) : Variable → Bool
  | .slot index =>
    (!isStatic && index = 0) || parameters.any fun (slot, _) => slot = index
  | .caught => true
  | .stack _ _ | .temporary _ => false

/-- The blocks that were translated, with their code. -/
def translated (codes : Codes) : List (Nat × BlockCode) :=
  codes.toList.zipIdx.filterMap fun (code, block) => code.map fun code => (block, code)

/-- The handlers of the blocks that were translated. -/
def activeHandlers (flow : ControlFlow) (codes : Codes) : List Handler :=
  (translated codes).flatMap fun (block, _) => flow.covering block

/-- The variables that the code of a method makes known: those of its blocks, and the one in which
handlers find the exception. -/
def introduced (flow : ControlFlow) (codes : Codes) : List Variable :=
  let found := (translated codes).flatMap fun (_, code) => code.introduced
  if (activeHandlers flow codes).isEmpty then found else .stack .reference 0 :: found

/-- The variables that a method has to declare. -/
def declaredVariables (isStatic : Bool) (parameters : List (Nat × FieldType))
    (flow : ControlFlow) (codes : Codes) : List Variable :=
  let found := (introduced flow codes).eraseDups
  (found.filter (!isGiven isStatic parameters ·)).mergeSort declaredBefore

/-! ## Features -/

/-- What bringing an argument into the range of its type needs from the support library. -/
def coercionFeatures : FieldType → List Support.Feature
  | .primitive .long => [.longs]
  | .primitive _ | .object _ | .array _ => []

/-- What a handler needs from the support library. -/
def handlerFeatures (handler : Handler) : List Support.Feature :=
  if handler.catchType.isSome then [.exceptions, .typeChecks] else [.exceptions]

/-- What a block and its handlers need from the support library. -/
def blockFeatures (flow : ControlFlow) (block : Nat) : List Support.Feature :=
  ((flow.blocks.getD block default).body.flatMap fun placed =>
      instructionFeatures placed.instruction)
    ++ (flow.covering block).flatMap handlerFeatures

/-- What a method needs from the support library: what is recorded for each instruction and each
handler of the blocks that were translated, and for each parameter. -/
def featuresOf (parameters : List (Nat × FieldType)) (flow : ControlFlow) (codes : Codes) :
    List Support.Feature :=
  ((translated codes).flatMap fun (block, _) => blockFeatures flow block)
    ++ parameters.flatMap fun (_, type) => coercionFeatures type

/-! ## The function -/

/-- Translates a method of a class. -/
def translateMethod (classes : ClassTable) (file : ClassFile) (method : Method) :
    Except Failure MethodCode := do
  let code ← match method.code with
    | some code => pure code
    | none => .error (.of (.format (.methodWithoutCode method.name method.descriptor)))
  let instructions ← code.decode file.pool
  let flow ← ControlFlow.build instructions code.exceptionTable code.bytecode.length
  let type ← MethodType.parse method.descriptor
  let codes ← translateBlocks ⟨classes, file.name, method.name⟩ flow
  let isStatic := method.access.isStatic
  let parameters := parametersOf isStatic type
  return {
    owner := file.name
    name := method.name
    type
    isStatic
    declared := declaredVariables isStatic parameters flow codes
    body := ← bodyOf flow codes
    features := featuresOf parameters flow codes }

/-- The line that begins a function with named parameters. -/
def functionHead (owner : ClassName) (name : String) (type : MethodType) (isStatic : Bool)
    (parameters : List String) : String :=
  let list := "(" ++ String.intercalate ", " parameters ++ ") \x7b"
  if isStatic then "function " ++ staticFunction owner name type ++ list
  else
    classIdentifier owner ++ ".prototype." ++ methodProperty name type ++ " = function" ++ list

/-- The line that ends a function. -/
def functionEnd (isStatic : Bool) : String := if isStatic then "\x7d" else "\x7d;"

/-- The line that declares variables, if there are any. -/
def declarationLines (declared : List Variable) : List Line :=
  if declared.isEmpty then []
  else [.plain ("var " ++ String.intercalate ", " (declared.map Variable.name) ++ ";")]

namespace MethodCode

/-- The lines of a function. -/
def lines (code : MethodCode) : List Line :=
  let parameters := parametersOf code.isStatic code.type
  let names := parameters.map fun (slot, _) => (Variable.slot slot).name
  .opening (functionHead code.owner code.name code.type code.isStatic names)
    :: (if code.isStatic then [] else [.plain "var lc0 = this;"])
    ++ statementLines (coercions parameters)
    ++ declarationLines code.declared
    ++ code.body.lines
    ++ [.closing (functionEnd code.isStatic)]

/-- The lines of a function with their indentation. -/
def text (code : MethodCode) : List String := Line.indentAll 0 code.lines

end MethodCode

end Bytescript.Translation
