import Bytescript.ClassFile.Instruction
import Mathlib.Logic.Function.Basic

/-!
# Computing with whole numbers

What the machine does with ints and longs in a row of instructions without jumps: the values on its
operand stack, those in its local variables, and how instructions compute new ones.  Results wrap
around, and only the low bits of an amount count when a value is shifted.

The machine is stuck where the stack or a local variable does not hold what an instruction needs,
and at all other instructions.  So the kinds of the values decide where it is stuck, and not the
values themselves.
-/

set_option autoImplicit false

namespace Bytescript

/-! ## Values -/

/-- A whole number of the machine. -/
inductive Whole where
  | int (value : Int32)
  | long (value : Int64)
  deriving DecidableEq

namespace Whole

/-- The kind of a whole number. -/
def kind : Whole → Kind
  | int _ => .int
  | long _ => .long

/-- The sum, difference or product of two values of the same kind.  Dividing is left out, since it
may throw. -/
def arithmetic? (op : ArithmeticOp) : Whole → Whole → Option Whole
  | int left, int right =>
    match op with
    | .add => some (int (left + right))
    | .sub => some (int (left - right))
    | .mul => some (int (left * right))
    | .div | .rem => none
  | long left, long right =>
    match op with
    | .add => some (long (left + right))
    | .sub => some (long (left - right))
    | .mul => some (long (left * right))
    | .div | .rem => none
  | _, _ => none

/-- The negative of a value. -/
def negate : Whole → Whole
  | int value => int (-value)
  | long value => long (-value)

/-- The bits of a word shifted by an amount. -/
def shiftBits {width : Nat} (op : ShiftOp) (bits : BitVec width) (amount : Nat) : BitVec width :=
  match op with
  | .left => bits <<< amount
  | .right => bits.sshiftRight amount
  | .unsignedRight => bits >>> amount

/-- A value shifted by an int, of which the low five or six bits count. -/
def shift? (op : ShiftOp) : Whole → Whole → Option Whole
  | int value, int amount =>
    some (int (.ofBitVec (shiftBits op value.toBitVec (amount.toBitVec.toNat % 32))))
  | long value, int amount =>
    some (long (.ofBitVec (shiftBits op value.toBitVec (amount.toBitVec.toNat % 64))))
  | _, long _ => none

/-- An operation on the bits of two values of the same kind. -/
def bitwise? (op : BitwiseOp) : Whole → Whole → Option Whole
  | int left, int right =>
    match op with
    | .and => some (int (left &&& right))
    | .or => some (int (left ||| right))
    | .xor => some (int (left ^^^ right))
  | long left, long right =>
    match op with
    | .and => some (long (left &&& right))
    | .or => some (long (left ||| right))
    | .xor => some (long (left ^^^ right))
  | _, _ => none

/-- A value converted to another kind of whole numbers, or to a narrower range.  All conversions
keep the sign, except for the one to 16 bits without a sign. -/
def convert? : Conversion → Whole → Option Whole
  | .intToLong, int value => some (long value.toInt64)
  | .longToInt, long value => some (int value.toInt32)
  | .intToByte, int value => some (int value.toInt8.toInt32)
  | .intToShort, int value => some (int value.toInt16.toInt32)
  | .intToChar, int value => some (int (.ofBitVec ((value.toBitVec.setWidth 16).setWidth 32)))
  | _, _ => none

end Whole

/-! ## Kinds -/

namespace Whole

variable {a b c : Whole}

theorem kinds_of_arithmetic? {op : ArithmeticOp} (computed : a.arithmetic? op b = some c) :
    b.kind = a.kind ∧ c.kind = a.kind := by
  cases a <;> cases b <;> cases op <;> cases computed <;> exact ⟨rfl, rfl⟩

theorem kind_negate (a : Whole) : a.negate.kind = a.kind := by
  cases a <;> rfl

theorem kinds_of_shift? {op : ShiftOp} (computed : a.shift? op b = some c) :
    b.kind = .int ∧ c.kind = a.kind := by
  cases a <;> cases b <;> cases computed <;> exact ⟨rfl, rfl⟩

theorem kinds_of_bitwise? {op : BitwiseOp} (computed : a.bitwise? op b = some c) :
    b.kind = a.kind ∧ c.kind = a.kind := by
  cases a <;> cases b <;> cases op <;> cases computed <;> exact ⟨rfl, rfl⟩

end Whole

/-! ## Steps -/

/-- The whole numbers on the operand stack, the top first, and in the local variables, as far as
they hold some. -/
structure Operands where
  stack : List Whole
  locals : Nat → Option Whole

namespace Operands

/-- The kinds of the values on the stack. -/
def kinds (operands : Operands) : List Kind := operands.stack.map Whole.kind

/-- Puts a value on the stack. -/
def push (operands : Operands) (value : Whole) : Operands :=
  { operands with stack := value :: operands.stack }

/-- Computes a value from the top of the stack. -/
def unary (compute : Whole → Option Whole) (operands : Operands) : Option Operands :=
  match operands.stack with
  | [] => none
  | value :: rest => (compute value).map fun result => { operands with stack := result :: rest }

/-- Computes a value from two on top of the stack, of which the upper one is on the right. -/
def binary (compute : Whole → Whole → Option Whole) (operands : Operands) : Option Operands :=
  match operands.stack with
  | right :: left :: rest =>
    (compute left right).map fun result => { operands with stack := result :: rest }
  | _ => none

/-- The local variables after one of them is assigned.  A value of two words also takes the next
variable, and one that loses its second half is gone. -/
def stored (locals : Nat → Option Whole) (index : Nat) (value : Whole) : Nat → Option Whole :=
  fun other =>
    if other = index then some value
    else if other = index + 1 ∧ value.kind.isWide then none
    else if other + 1 = index ∧ (locals other).any (·.kind.isWide) then none
    else locals other

/-- Restricts an operation to values of a kind. -/
def ofKind (on : Kind) (compute : Whole → Option Whole) (value : Whole) : Option Whole :=
  if value.kind = on then compute value else none

/-- Takes a value from the stack to a local variable. -/
def store (kind : Kind) (index : Nat) (operands : Operands) : Option Operands :=
  match operands.stack with
  | [] => none
  | value :: rest =>
    if value.kind = kind then some ⟨rest, stored operands.locals index value⟩ else none

/-- Adds to the int in a local variable. -/
def increment (index : Nat) (delta : Int) (operands : Operands) : Option Operands :=
  match operands.locals index with
  | some (.int value) =>
    some { operands with
      locals := Function.update operands.locals index (some (.int (value + .ofInt delta))) }
  | _ => none

/-- What an instruction does. -/
def step (operands : Operands) : Instruction → Option Operands
  | .constInt value => some (operands.push (.int value))
  | .constLong value => some (operands.push (.long (.ofNat value)))
  | .loadConstant (.constant (.integer value)) => some (operands.push (.int value))
  | .loadConstant (.constant (.long value)) => some (operands.push (.long value))
  | .load kind index =>
    ((operands.locals index).bind (ofKind kind some)).map operands.push
  | .store kind index => operands.store kind index
  | .increment index delta => operands.increment index delta
  | .arithmetic op on =>
    operands.binary fun left right => ofKind on.kind (·.arithmetic? op right) left
  | .negate on => operands.unary (ofKind on.kind fun value => some value.negate)
  | .shift op on => operands.binary fun value amount => ofKind on.kind (·.shift? op amount) value
  | .bitwise op on => operands.binary fun left right => ofKind on.kind (·.bitwise? op right) left
  | .convert conversion => operands.unary (·.convert? conversion)
  | _ => none

/-- What a row of instructions does. -/
def run (operands : Operands) (instructions : List Placed) : Option Operands :=
  instructions.foldlM (fun state placed => state.step placed.instruction) operands

section Results

variable {operands after : Operands}

theorem ofKind_eq_some {on : Kind} {compute : Whole → Option Whole} {value result : Whole} :
    ofKind on compute value = some result ↔ value.kind = on ∧ compute value = some result := by
  rw [ofKind]
  split <;> simp [*]

theorem step_load {kind : Kind} {index : Nat} {value : Whole}
    (here : operands.locals index = some value) (same : value.kind = kind) :
    operands.step (.load kind index) = some (operands.push value) := by
  rw [step, here, Option.bind_some, ofKind, if_pos same]
  rfl

theorem exists_of_unary {compute : Whole → Option Whole}
    (computed : operands.unary compute = some after) :
    ∃ value rest result, operands = ⟨value :: rest, operands.locals⟩ ∧
      compute value = some result ∧ after = ⟨result :: rest, operands.locals⟩ := by
  obtain ⟨_ | ⟨value, rest⟩, locals⟩ := operands
  · cases computed
  · obtain ⟨result, made, same⟩ := Option.map_eq_some_iff.mp computed
    exact ⟨value, rest, result, rfl, made, same.symm⟩

theorem exists_of_binary {compute : Whole → Whole → Option Whole}
    (computed : operands.binary compute = some after) :
    ∃ right left rest result, operands = ⟨right :: left :: rest, operands.locals⟩ ∧
      compute left right = some result ∧ after = ⟨result :: rest, operands.locals⟩ := by
  obtain ⟨_ | ⟨right, _ | ⟨left, rest⟩⟩, locals⟩ := operands
  · cases computed
  · cases computed
  · obtain ⟨result, made, same⟩ := Option.map_eq_some_iff.mp computed
    exact ⟨right, left, rest, result, rfl, made, same.symm⟩

theorem exists_of_store {kind : Kind} {index : Nat}
    (computed : operands.store kind index = some after) :
    ∃ value rest, operands = ⟨value :: rest, operands.locals⟩ ∧ value.kind = kind ∧
      after = ⟨rest, stored operands.locals index value⟩ := by
  obtain ⟨_ | ⟨value, rest⟩, locals⟩ := operands
  · cases computed
  · obtain ⟨same, made⟩ := Option.ite_none_right_eq_some.mp computed
    cases made
    exact ⟨value, rest, rfl, same, rfl⟩

theorem exists_of_increment {index : Nat} {delta : Int}
    (computed : operands.increment index delta = some after) :
    ∃ value, operands.locals index = some (.int value) ∧
      after = { operands with
        locals := Function.update operands.locals index (some (.int (value + .ofInt delta))) } := by
  rw [increment] at computed
  split at computed
  next value here =>
    cases computed
    exact ⟨value, here, rfl⟩
  next => cases computed

/-- A variable that holds a value after an assignment either is the assigned one, or held the value
before. -/
theorem stored_eq_some {locals : Nat → Option Whole} {index other : Nat} {value held : Whole}
    (here : stored locals index value other = some held) :
    other = index ∧ held = value ∨ other ≠ index ∧ locals other = some held := by
  rw [stored] at here
  split at here
  next same =>
    cases here
    exact .inl ⟨same, rfl⟩
  next different =>
    refine .inr ⟨different, ?_⟩
    split at here
    · cases here
    · split at here
      · cases here
      · exact here

end Results

/-! ## Kinds decide where the machine is stuck -/

theorem map_kind_arithmetic? (op : ArithmeticOp) : ∀ left right left' right' : Whole,
    left.kind = left'.kind → right.kind = right'.kind →
      (left.arithmetic? op right).map Whole.kind = (left'.arithmetic? op right').map Whole.kind
  | .int _, .int _, .int _, .int _, _, _ | .long _, .long _, .long _, .long _, _, _ => by
    cases op <;> rfl
  | .int _, .long _, .int _, .long _, _, _ | .long _, .int _, .long _, .int _, _, _ => rfl

theorem map_kind_bitwise? (op : BitwiseOp) : ∀ left right left' right' : Whole,
    left.kind = left'.kind → right.kind = right'.kind →
      (left.bitwise? op right).map Whole.kind = (left'.bitwise? op right').map Whole.kind
  | .int _, .int _, .int _, .int _, _, _ | .long _, .long _, .long _, .long _, _, _ => by
    cases op <;> rfl
  | .int _, .long _, .int _, .long _, _, _ | .long _, .int _, .long _, .int _, _, _ => rfl

theorem map_kind_shift? (op : ShiftOp) : ∀ value amount value' amount' : Whole,
    value.kind = value'.kind → amount.kind = amount'.kind →
      (value.shift? op amount).map Whole.kind = (value'.shift? op amount').map Whole.kind
  | .int _, .int _, .int _, .int _, _, _ | .long _, .int _, .long _, .int _, _, _ => by
    simp [Whole.shift?, Whole.kind]
  | .int _, .long _, .int _, .long _, _, _ | .long _, .long _, .long _, .long _, _, _ => rfl

theorem map_kind_convert? (conversion : Conversion) : ∀ value value' : Whole,
    value.kind = value'.kind →
      (value.convert? conversion).map Whole.kind = (value'.convert? conversion).map Whole.kind
  | .int _, .int _, _ | .long _, .long _, _ => by
    cases conversion <;> simp [Whole.convert?, Whole.kind]

theorem map_kind_ofKind {on : Kind} {compute compute' : Whole → Option Whole}
    {value value' : Whole} (kind : value.kind = value'.kind)
    (same : (compute value).map Whole.kind = (compute' value').map Whole.kind) :
    (ofKind on compute value).map Whole.kind = (ofKind on compute' value').map Whole.kind := by
  rw [ofKind, ofKind, ← kind]
  split
  · exact same
  · rfl

theorem map_kind_stored {locals locals' : Nat → Option Whole} {value value' : Whole}
    (same : ∀ place, (locals place).map Whole.kind = (locals' place).map Whole.kind) (index : Nat)
    (kind : value.kind = value'.kind) (place : Nat) :
    (stored locals index value place).map Whole.kind =
      (stored locals' index value' place).map Whole.kind := by
  have wide : (locals place).any (·.kind.isWide) = (locals' place).any (·.kind.isWide) := by
    simpa [Option.any_map, Function.comp_def] using congrArg (Option.any Kind.isWide) (same place)
  rw [stored, stored, ← kind, ← wide]
  split
  · exact congrArg some kind
  · split
    · rfl
    · split
      · rfl
      · exact same place

/-- States with values of the same kinds in the same places. -/
structure SameKinds (one other : Operands) : Prop where
  stack : one.kinds = other.kinds
  locals : ∀ index, (one.locals index).map Whole.kind = (other.locals index).map Whole.kind

namespace SameKinds

variable {one other : Operands}

theorem push {value value' : Whole} (same : SameKinds one other)
    (kind : value.kind = value'.kind) : SameKinds (one.push value) (other.push value') :=
  ⟨congrArg₂ List.cons kind same.stack, same.locals⟩

/-- What is computed of values of the same kinds is pushed on the same stack. -/
theorem results {value value' : Option Whole} {rest rest' : List Whole}
    (under : rest.map Whole.kind = rest'.map Whole.kind) (same : SameKinds one other)
    (kind : value.map Whole.kind = value'.map Whole.kind) :
    Option.Rel SameKinds (value.map fun result => { one with stack := result :: rest })
      (value'.map fun result => { other with stack := result :: rest' }) := by
  cases value with
  | none =>
    cases value' with
    | none => exact .none
    | some => cases kind
  | some result =>
    cases value' with
    | none => cases kind
    | some result' =>
      exact .some ⟨congrArg₂ List.cons (Option.some.inj kind) under, same.locals⟩

theorem unary {compute : Whole → Option Whole} (same : SameKinds one other)
    (kinds : ∀ value value' : Whole, value.kind = value'.kind →
      (compute value).map Whole.kind = (compute value').map Whole.kind) :
    Option.Rel SameKinds (one.unary compute) (other.unary compute) := by
  obtain ⟨_ | ⟨value, rest⟩, locals⟩ := one <;> obtain ⟨_ | ⟨value', rest'⟩, locals'⟩ := other
  · exact .none
  · cases same.stack
  · cases same.stack
  · obtain ⟨top, under⟩ := List.cons.inj same.stack
    exact same.results under (kinds value value' top)

theorem binary {compute : Whole → Whole → Option Whole} (same : SameKinds one other)
    (kinds : ∀ left right left' right' : Whole, left.kind = left'.kind →
      right.kind = right'.kind →
        (compute left right).map Whole.kind = (compute left' right').map Whole.kind) :
    Option.Rel SameKinds (one.binary compute) (other.binary compute) := by
  obtain ⟨stack, locals⟩ := one
  obtain ⟨stack', locals'⟩ := other
  match stack, stack' with
  | [], [] | [_], [_] => exact .none
  | [], _ :: _ | _ :: _, [] | [_], _ :: _ :: _ | _ :: _ :: _, [_] =>
    exact absurd (congrArg List.length same.stack) (by simp [Operands.kinds])
  | right :: left :: rest, right' :: left' :: rest' =>
    obtain ⟨top, below⟩ := List.cons.inj same.stack
    obtain ⟨second, under⟩ := List.cons.inj below
    exact same.results under (kinds left right left' right' second top)

theorem store (same : SameKinds one other) (kind : Kind) (index : Nat) :
    Option.Rel SameKinds (one.store kind index) (other.store kind index) := by
  obtain ⟨_ | ⟨value, rest⟩, locals⟩ := one <;> obtain ⟨_ | ⟨value', rest'⟩, locals'⟩ := other
  · exact .none
  · cases same.stack
  · cases same.stack
  · obtain ⟨top, under⟩ := List.cons.inj same.stack
    have top : value.kind = value'.kind := top
    simp only [Operands.store, ← top]
    split
    · exact .some ⟨under, map_kind_stored same.locals index top⟩
    · exact .none

theorem local_cases (same : SameKinds one other) (index : Nat) :
    (one.locals index = none ∧ other.locals index = none) ∨
      ∃ value value', one.locals index = some value ∧ other.locals index = some value' ∧
        value.kind = value'.kind := by
  have here := same.locals index
  cases held : one.locals index with
  | none =>
    rw [held] at here
    exact .inl ⟨rfl, Option.map_eq_none_iff.mp here.symm⟩
  | some value =>
    rw [held] at here
    obtain ⟨value', held', kind⟩ := Option.map_eq_some_iff.mp here.symm
    exact .inr ⟨value, value', rfl, held', kind.symm⟩

theorem increment (same : SameKinds one other) (index : Nat) (delta : Int) :
    Option.Rel SameKinds (one.increment index delta) (other.increment index delta) := by
  rw [Operands.increment, Operands.increment]
  rcases same.local_cases index with ⟨none, none'⟩ | ⟨value, value', held, held', kind⟩
  · rw [none, none']
    exact .none
  · rw [held, held']
    cases value <;> cases value'
    · refine .some ⟨same.stack, fun place => ?_⟩
      by_cases assigned : place = index
      · subst assigned
        simp only [Function.update_self]
        rfl
      · simpa only [Function.update_of_ne assigned] using same.locals place
    · cases kind
    · cases kind
    · exact .none

theorem load (same : SameKinds one other) (kind : Kind) (index : Nat) :
    Option.Rel SameKinds (one.step (.load kind index)) (other.step (.load kind index)) := by
  rw [step, step]
  rcases same.local_cases index with ⟨none, none'⟩ | ⟨value, value', held, held', alike⟩
  · rw [none, none']
    exact .none
  · rw [held, held', Option.bind_some, Option.bind_some, ofKind, ofKind, alike]
    split
    · exact .some (same.push alike)
    · exact .none

/-- Of two states with the same kinds, either both are stuck at an instruction or none. -/
theorem step (same : SameKinds one other) (instruction : Instruction) :
    Option.Rel SameKinds (one.step instruction) (other.step instruction) := by
  cases instruction with
  | constInt | constLong => exact .some (same.push rfl)
  | loadConstant value =>
    cases value with
    | constant value =>
      cases value with
      | integer | long => exact .some (same.push rfl)
      | float | double | string => exact .none
    | _ => exact .none
  | load kind index => exact same.load kind index
  | store kind index => exact same.store kind index
  | increment index delta => exact same.increment index delta
  | arithmetic op on =>
    exact same.binary fun left right left' right' kind second =>
      map_kind_ofKind kind (map_kind_arithmetic? op left right left' right' kind second)
  | negate on =>
    exact same.unary fun value value' kind => map_kind_ofKind kind
      (congrArg some (value.kind_negate.trans (kind.trans value'.kind_negate.symm)))
  | shift op on =>
    exact same.binary fun value amount value' amount' kind second =>
      map_kind_ofKind kind (map_kind_shift? op value amount value' amount' kind second)
  | bitwise op on =>
    exact same.binary fun left right left' right' kind second =>
      map_kind_ofKind kind (map_kind_bitwise? op left right left' right' kind second)
  | convert conversion => exact same.unary (map_kind_convert? conversion)
  | _ => exact .none

/-- Whether the machine can run instructions depends on the kinds of the values alone. -/
theorem run (same : SameKinds one other) (instructions : List Placed) :
    Option.Rel SameKinds (one.run instructions) (other.run instructions) := by
  induction instructions generalizing one other with
  | nil => exact .some same
  | cons placed rest ih =>
    rw [Operands.run, Operands.run, List.foldlM_cons, List.foldlM_cons]
    have stepped := same.step placed.instruction
    revert stepped
    generalize one.step placed.instruction = first
    generalize other.step placed.instruction = second
    intro stepped
    cases stepped with
    | none => exact .none
    | some same => exact ih same

end SameKinds

end Operands

end Bytescript
