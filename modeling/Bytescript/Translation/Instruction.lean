import Bytescript.Translation.Arithmetic
import Bytescript.Translation.Member

/-!
# Translating instructions

Each instruction takes values from the simulated stack, gives values back, and becomes a few
statements on the variables of these values.  The last instruction of a block may also say how
the block is left.  A value that is computed gets its variable assigned even if it is dropped
later, so the effects of an expression happen where the instruction stands.
-/

set_option autoImplicit false

namespace Bytescript.Translation

open Script

/-! ## Constants and variables -/

/-- The bits of the small floats that instructions can load. -/
def smallFloat : Nat → UInt32
  | 0 => 0
  | 1 => 0x3f800000
  | _ => 0x40000000

/-- The bits of the small doubles that instructions can load. -/
def smallDouble : Nat → UInt64
  | 0 => 0
  | _ => 0x3ff0000000000000

/-- The kind of a constant on the stack. -/
def constantKind : Constant → Kind
  | .integer _ => .int
  | .float _ => .float
  | .long _ => .long
  | .double _ => .double
  | .string _ => .reference

/-- Loads a constant of the pool. -/
def loadConstant (site : Site) : Loadable → Simulation Effect
  | .constant value => pushes (constantKind value) (.constant value)
  | .classLiteral name => pushes .reference (.support .classOf [.classString name])
  | .methodHandle _ | .methodType _ | .dynamic _ => site.unsupported

/-- Stores the top value in a local variable. -/
def storeLocal (site : Site) (kind : Kind) (index : Nat) : Simulation Effect := do
  let value ← pop site kind
  return .plain [.assign (.slot index) (.read value)]

/-- Adds to a local variable. -/
def incrementLocal (index : Nat) (delta : Int) : Effect :=
  .plain [.assign (.slot index) (wrapInt (.binary .add (.read (.slot index)) (.int delta)))]

/-! ## Arrays -/

/-- Loads an element of an array. -/
def loadElement (site : Site) (element : ElementKind) : Simulation Effect := do
  let index ← pop site .int
  let array ← pop site .reference
  pushes element.kind (.support .getElement [.read array, .read index])

/-- The function that stores an element. -/
def storeFunction : ElementKind → Support.Function
  | .byte => .putByte
  | .reference => .putReference
  | .int | .long | .float | .double | .char | .short => .putElement

/-- A value as an element of an array. -/
def asElement (element : ElementKind) (value : Expression) : Expression :=
  match element with
  | .char => low16 value
  | .short => narrow 16 value
  | .int | .long | .float | .double | .reference | .byte => value

/-- Stores an element of an array. -/
def storeElement (site : Site) (element : ElementKind) : Simulation Effect := do
  let value ← pop site element.kind
  let index ← pop site .int
  let array ← pop site .reference
  return .plain [.evaluate (.support (storeFunction element)
    [.read array, .read index, asElement element (.read value)])]

/-- The descriptor of an array of a class, which may be an array class itself. -/
def arrayDescriptor (element : ClassName) : String :=
  if element.isArray then "[" ++ element.text else "[L" ++ element.text ++ ";"

/-- Makes an array. -/
def makeArray (site : Site) (descriptor : String) : Simulation Effect :=
  unary site .int .reference fun length =>
    .support .newArray [.string descriptor, length]

/-- Makes an array of arrays. -/
def makeMultiArray (site : Site) (type : ClassName) (dimensions : Nat) :
    Simulation Effect := do
  let lengths ← popInts site dimensions
  pushes .reference
    (.support .newMultiArray [.classString type, .array (lengths.map .read)])

/-! ## Branches -/

/-- Leaves the block for one of two others. -/
def branches (site : Site) (condition : Expression) (target : Nat) : Effect :=
  .ends (.branch condition target site.next)

/-- Branches on the comparison of a value with an expression. -/
def branchUnary (site : Site) (kind : Kind) (operator : Operator) (against : Expression)
    (target : Nat) : Simulation Effect := do
  let value ← pop site kind
  return branches site (.binary operator (.read value) against) target

/-- Branches on the comparison of two values. -/
def branchBinary (site : Site) (kind : Kind) (operator : Operator) (target : Nat) :
    Simulation Effect := do
  let second ← pop site kind
  let first ← pop site kind
  return branches site (.binary operator (.read first) (.read second)) target

/-- The keys of a switch over a range, paired with its targets. -/
def tableCases (low : Int32) (targets : List Nat) : List (Int32 × Nat) :=
  targets.zipIdx.map fun (target, index) => (low + Int32.ofNat index, target)

/-- Leaves the block by the value of an int. -/
def switches (site : Site) (cases : List (Int32 × Nat)) (default : Nat) :
    Simulation Effect := do
  let key ← pop site .int
  return .ends (.switch key cases default)

/-- Leaves the method. -/
def leaves (site : Site) : Option Kind → Simulation Effect
  | none => pure (.ends (.leave none))
  | some kind => do return .ends (.leave (some (← pop site kind)))

/-! ## Objects -/

/-- Throws an exception. -/
def throws (site : Site) : Simulation Effect := do
  let exception ← pop site .reference
  return ⟨[.throw (nonNull exception)], some .throw⟩

/-- Checks the class of an object, which stays where it is. -/
def checkCast (site : Site) (name : ClassName) : Simulation Effect := do
  let object ← pop site .reference
  let _same ← push .reference
  return .plain [.evaluate (.support .cast [.read object, .classString name])]

/-- Tests the class of an object. -/
def testInstance (site : Site) (name : ClassName) : Simulation Effect :=
  unary site .reference .int fun object =>
    .conditional (.support .isInstance [object, .classString name]) (.int 1) (.int 0)

/-- The length of an array. -/
def arrayLength (site : Site) : Simulation Effect :=
  unary site .reference .int fun array => .property (.support .nonNull [array]) "length"

/-- Only checks for null, since there is a single thread. -/
def useMonitor (site : Site) : Simulation Effect := do
  let object ← pop site .reference
  return .plain [.evaluate (nonNull object)]

/-! ## All instructions -/

/-- Translates an instruction. -/
def translate (site : Site) : Instruction → Simulation Effect
  | .nop => pure (.plain [])
  | .constNull => pushes .reference .null
  | .constInt value => pushes .int (.constant (.integer value))
  | .constLong value => pushes .long (.constant (.long (Int64.ofNat value)))
  | .constFloat value => pushes .float (.constant (.float (smallFloat value)))
  | .constDouble value => pushes .double (.constant (.double (smallDouble value)))
  | .loadConstant value => loadConstant site value
  | .load kind index => pushes kind (.read (.slot index))
  | .store kind index => storeLocal site kind index
  | .arrayLoad element => loadElement site element
  | .arrayStore element => storeElement site element
  | .pop => dropOne site
  | .pop2 => dropTwo site
  | .shuffle how => rearrange site (.ofShuffle how)
  | .arithmetic op on => binary site on.kind on.kind on.kind (arithmetic op on)
  | .negate on => unary site on.kind on.kind (negation on)
  | .shift op on => binary site on.kind .int on.kind (shifted op on)
  | .bitwise op on => binary site on.kind on.kind on.kind (bitwise op)
  | .increment index delta => pure (incrementLocal index delta)
  | .convert conversion =>
    let (source, target) := conversionKinds conversion
    unary site source target (converted conversion)
  | .compare how =>
    binary site (comparedKind how) (comparedKind how) .int fun first second =>
      .support (comparisonFunction how) [first, second]
  | .ifZero condition target =>
    branchUnary site .int (conditionOperator condition) (.int 0) target
  | .ifCompare condition target =>
    branchBinary site .int (conditionOperator condition) target
  | .ifSame equal target =>
    branchBinary site .reference (if equal then .same else .notSame) target
  | .ifNull equal target =>
    branchUnary site .reference (if equal then .equal else .notEqual) .null target
  | .goto target => pure (.ends (.goto target))
  | .jumpSubroutine _ => site.unsupported
  | .returnSubroutine _ => site.unsupported
  | .tableSwitch default low _ targets => switches site (tableCases low targets) default
  | .lookupSwitch default pairs => switches site pairs default
  | .leave kind => leaves site kind
  | .getStatic field => getStatic site field
  | .putStatic field => putStatic site field
  | .getField field => getField site field
  | .putField field => putField site field
  | .invokeVirtual method => invokeVirtual site method
  | .invokeSpecial method _ => invokeSpecial site method
  | .invokeStatic method _ => invokeStatic site method
  | .invokeInterface method => invokeVirtual site method
  | .invokeDynamic _ => site.unsupported
  | .new name => pushes .reference (.new name)
  | .newArray element => makeArray site ("[" ++ String.singleton element.letter)
  | .newReferenceArray element => makeArray site (arrayDescriptor element)
  | .newMultiArray type dimensions => makeMultiArray site type dimensions
  | .arrayLength => arrayLength site
  | .throw => throws site
  | .checkCast name => checkCast site name
  | .instanceOf name => testInstance site name
  | .monitorEnter => useMonitor site
  | .monitorExit => useMonitor site

/-! ## Features -/

/-- What an operation on two numbers needs from the support library. -/
def arithmeticFeatures (op : ArithmeticOp) (on : Numeric) : List Support.Feature :=
  match on, op with
  | .int, .div | .int, .rem | .long, .div | .long, .rem => [.arithmetic]
  | .int, _ | .long, _ | .float, _ | .double, _ => []

/-- What a conversion needs from the support library. -/
def conversionFeatures : Conversion → List Support.Feature
  | .floatToInt | .doubleToInt | .floatToLong | .doubleToLong => [.conversions]
  | _ => []

/-- What loading a constant needs from the support library. -/
def loadableFeatures : Loadable → List Support.Feature
  | .classLiteral _ => [.classLiterals]
  | .constant _ | .methodHandle _ | .methodType _ | .dynamic _ => []

/-- What the call of a method that the class of the receiver chooses needs from the support
library. -/
def virtualCallFeatures (method : MemberRef) : List Support.Feature :=
  (if isClassOf method then [.classLiterals] else [])
    ++ if method.owner.isArray && method.name = "clone" then [.arrays] else [.nullChecks]

/-- What an exact call needs from the support library. -/
def specialCallFeatures (method : MemberRef) : List Support.Feature :=
  if method.name = constructorName then [] else [.nullChecks]

/-- What an instruction needs from the support library. -/
def instructionFeatures : Instruction → List Support.Feature
  | .loadConstant value => loadableFeatures value
  | .arrayLoad _ | .arrayStore _ => [.arrays]
  | .arithmetic op on => arithmeticFeatures op on
  | .convert conversion => conversionFeatures conversion
  | .compare _ => [.compares]
  | .getField _ | .putField _ => [.nullChecks]
  | .invokeVirtual method | .invokeInterface method => virtualCallFeatures method
  | .invokeSpecial method _ => specialCallFeatures method
  | .newArray _ | .newReferenceArray _ | .newMultiArray _ _ => [.arrays]
  | .arrayLength | .throw => [.nullChecks]
  | .checkCast _ | .instanceOf _ => [.typeChecks]
  | .monitorEnter | .monitorExit => [.nullChecks]
  | _ => []

end Bytescript.Translation
