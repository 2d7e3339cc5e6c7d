import Bytescript.Proofs.Failure
import Bytescript.Proofs.Translation.Arithmetic
import Bytescript.Proofs.Translation.Positions
import Bytescript.Translation.Block

/-!
# Straight code that computes with whole numbers

A row of instructions that only computes with ints and longs becomes a row of assignments.  Where
the machine can run the instructions, running the assignments leaves in every variable what the
machine has in its place, and no variable ever leaves the range of its kind.

One instruction is one assignment, so the step says everything: which variable is assigned, that
its new value is what the machine computes, and that the values in all other places are untouched.
Values of other kinds may lie below on the stack and in other local variables; they are never
looked at.
-/

set_option autoImplicit false

namespace Bytescript.Translation

open Script

variable {Other : Type} {memory : Memory Other} {below : Stack}

/-! ## Ranges -/

/-- A number of 32 bits with a sign. -/
def IsInt (value : Value Other) : Prop :=
  ∃ number : Int, value = .number (.whole number) ∧ -2 ^ 31 ≤ number ∧ number < 2 ^ 31

/-- A big integer of 64 bits with a sign. -/
def IsLong (value : Value Other) : Prop :=
  ∃ number : Int, value = .bigInteger number ∧ -2 ^ 63 ≤ number ∧ number < 2 ^ 63

/-- The values of a kind of whole numbers. -/
def IsWhole : Kind → Value Other → Prop
  | .int, value => IsInt value
  | .long, value => IsLong value
  | _, _ => False

/-- What a variable may hold.  A local variable may hold values of different kinds in turn. -/
def InRange : Variable → Value Other → Prop
  | .stack .int _, value => IsInt value
  | .stack .long _, value => IsLong value
  | .slot _, value => IsInt value ∨ IsLong value
  | _, _ => True

theorem isWhole_iff {kind : Kind} {value : Value Other} :
    IsWhole kind value ↔ ∃ whole : Whole, whole.kind = kind ∧ value = holding whole := by
  constructor
  · intro isWhole
    cases kind with
    | int =>
      obtain ⟨number, rfl, lower, upper⟩ := isWhole
      refine ⟨.int (.ofInt number), rfl, ?_⟩
      rw [holding, Int32.toInt_ofInt_of_le lower upper]
    | long =>
      obtain ⟨number, rfl, lower, upper⟩ := isWhole
      refine ⟨.long (.ofInt number), rfl, ?_⟩
      rw [holding, Int64.toInt_ofInt_of_le lower upper]
    | _ => exact isWhole.elim
  · rintro ⟨value | value, rfl, rfl⟩
    · exact ⟨value.toInt, rfl, value.le_toInt, value.toInt_lt⟩
    · exact ⟨value.toInt, rfl, value.le_toInt, value.toInt_lt⟩

theorem holding_inj {value other : Whole} (same : (holding value : Value Other) = holding other) :
    value = other := by
  cases value with
  | int value =>
    cases other with
    | int other =>
      exact congrArg Whole.int (Int32.toInt_inj.mp (Number.whole.inj (Value.number.inj same)))
    | long other => cases same
  | long value =>
    cases other with
    | int other => cases same
    | long other => exact congrArg Whole.long (Int64.toInt_inj.mp (Value.bigInteger.inj same))

theorem isWhole_holding (value : Whole) : IsWhole value.kind (holding value : Value Other) :=
  isWhole_iff.mpr ⟨value, rfl, rfl⟩

theorem inRange_stack (depth : Nat) (value : Whole) :
    InRange (.stack value.kind depth) (holding value : Value Other) := by
  cases value with
  | int value => exact isWhole_holding (.int value)
  | long value => exact isWhole_holding (.long value)

theorem inRange_slot (index : Nat) (value : Whole) :
    InRange (.slot index) (holding value : Value Other) := by
  cases value with
  | int value => exact .inl (isWhole_holding (.int value))
  | long value => exact .inr (isWhole_holding (.long value))

/-! ## States -/

/-- The variables hold whole numbers where the kinds of values above a height say so, and where
the kinds of local variables do. -/
structure Ranged (memory : Memory Other) (height : Nat) (kinds : Stack)
    (types : Nat → Option Kind) : Prop where
  stack : ∀ value ∈ heldAbove memory height kinds, IsWhole value.1 value.2
  locals : ∀ index kind, types index = some kind → IsWhole kind (memory (.slot index))

/-- The variables hold the values that the machine has on its stack, above a number of others, and
in its local variables. -/
structure Agrees (height : Nat) (operands : Operands) (memory : Memory Other) : Prop where
  stack : heldAbove memory height operands.kinds =
    operands.stack.map fun value => (value.kind, holding value)
  locals : ∀ index value, operands.locals index = some value →
    memory (.slot index) = holding value

/-- The whole numbers of a stack, as the script holds them. -/
theorem exists_wholes {values : List (Kind × Value Other)}
    (wholes : ∀ value ∈ values, IsWhole value.1 value.2) :
    ∃ list : List Whole, values = list.map fun value => (value.kind, holding value) := by
  induction values with
  | nil => exact ⟨[], rfl⟩
  | cons first rest ih =>
    obtain ⟨here, there⟩ := List.forall_mem_cons.mp wholes
    obtain ⟨list, rfl⟩ := ih there
    obtain ⟨whole, kind, value⟩ := isWhole_iff.mp here
    exact ⟨whole :: list, congrArg (· :: _) (Prod.ext kind.symm value)⟩

/-- Variables in their ranges hold the values of a state of the machine. -/
theorem Ranged.exists_agrees {height : Nat} {kinds : Stack} {types : Nat → Option Kind}
    (ranged : Ranged memory height kinds types) :
    ∃ operands : Operands, operands.kinds = kinds ∧
      (∀ index, (operands.locals index).map Whole.kind = types index) ∧
      Agrees height operands memory := by
  have each (index : Nat) : ∃ whole : Option Whole, whole.map Whole.kind = types index ∧
      ∀ value, whole = some value → memory (.slot index) = holding value := by
    cases type : types index with
    | none => exact ⟨none, rfl, nofun⟩
    | some kind =>
      obtain ⟨whole, same, held⟩ := isWhole_iff.mp (ranged.locals index kind type)
      refine ⟨some whole, congrArg some same, fun value found => ?_⟩
      rw [held, Option.some.inj found]
  choose locals kindOf holds using each
  obtain ⟨stack, whole⟩ := exists_wholes ranged.stack
  have sameKinds : stack.map Whole.kind = kinds := by
    rw [← map_fst_heldAbove memory height kinds, whole, List.map_map]
    rfl
  refine ⟨⟨stack, locals⟩, sameKinds, kindOf, ?_, holds⟩
  rw [Operands.kinds, sameKinds]
  exact whole

theorem slot_ne_stack (index : Nat) (kind : Kind) (depth : Nat) :
    Variable.slot index ≠ .stack kind depth := nofun

namespace Agrees

variable {height : Nat} {operands : Operands}

/-- The top value is in the variable of its kind and depth. -/
theorem top {value : Whole} {rest : List Whole} {locals : Nat → Option Whole}
    (agrees : Agrees height ⟨value :: rest, locals⟩ memory) :
    memory (.stack value.kind (height + (rest.map Whole.kind).length)) = holding value := by
  have whole := agrees.stack
  rw [Operands.kinds, List.map_cons, heldAbove_cons, List.map_cons] at whole
  exact (Prod.mk.inj (List.cons.inj whole).1).2

theorem pop {value : Whole} {rest : List Whole} {locals : Nat → Option Whole}
    (agrees : Agrees height ⟨value :: rest, locals⟩ memory) :
    Agrees height ⟨rest, locals⟩ memory := by
  refine ⟨?_, agrees.locals⟩
  have whole := agrees.stack
  rw [Operands.kinds, List.map_cons, heldAbove_cons, List.map_cons] at whole
  exact (List.cons.inj whole).2

theorem push (agrees : Agrees height operands memory) (value : Whole) :
    Agrees height (operands.push value) (Function.update memory
      (.stack value.kind (height + operands.kinds.length)) (holding value)) := by
  refine ⟨(heldAbove_push ..).trans ?_, fun index other here => ?_⟩
  · exact congrArg ((value.kind, holding value) :: ·) agrees.stack
  · exact (Function.update_of_ne (slot_ne_stack _ _ _) ..).trans (agrees.locals index other here)

/-- What a variable holds is the value of its kind that the machine has there. -/
theorem local_eq (agrees : Agrees height operands memory) {index : Nat} {value : Whole}
    (type : (operands.locals index).map Whole.kind = some value.kind)
    (here : memory (.slot index) = holding value) : operands.locals index = some value := by
  obtain ⟨other, found, _⟩ := Option.map_eq_some_iff.mp type
  rw [found, holding_inj ((agrees.locals index other found).symm.trans here)]

/-- A local variable is assigned, and others may become unusable. -/
theorem assign (agrees : Agrees height operands memory) {index : Nat} {value : Whole}
    {locals : Nat → Option Whole}
    (assigned : ∀ other held, locals other = some held →
      other = index ∧ held = value ∨ other ≠ index ∧ operands.locals other = some held) :
    Agrees height { operands with locals }
      (Function.update memory (.slot index) (holding value)) := by
  refine ⟨?_, fun other held here => ?_⟩
  · refine (heldAbove_congr fun kind depth _ => ?_).trans agrees.stack
    exact Function.update_of_ne (slot_ne_stack _ _ _).symm ..
  · rcases assigned other held here with ⟨rfl, rfl⟩ | ⟨different, before⟩
    · exact Function.update_self ..
    · refine (Function.update_of_ne (fun same => different ?_) ..).trans
        (agrees.locals other held before)
      exact Variable.slot.inj same

end Agrees

/-! ## One instruction -/

/-- Above the values of some kinds, a simulation becomes one assignment, which does to the
variables what the machine does, and keeps the values below. -/
def Simulation.Computes (simulation : Simulation Effect) (memory : Memory Other) (below : Stack)
    (before after : Operands) : Prop :=
  ∃ target expression value,
    simulation (before.kinds ++ below) =
      .ok (.plain [.assign target expression], after.kinds ++ below) ∧
    Means memory expression value ∧
    InRange target (holding value : Value Other) ∧
    (∀ kind depth, target = .stack kind depth → below.length ≤ depth) ∧
    Agrees below.length after (Function.update memory target (holding value))

theorem pop_cons (site : Site) (kind : Kind) (rest : Stack) :
    pop site kind (kind :: rest) = .ok (.stack kind rest.length, rest) := by
  refine bindState_eq_ok.mpr ⟨(kind, .stack kind rest.length), rest, rfl, ?_⟩
  dsimp only
  rw [if_pos rfl]
  rfl

theorem pushes_computes {operands : Operands} {value : Whole} {expression : Expression}
    (agrees : Agrees below.length operands memory) (means : Means memory expression value) :
    (pushes value.kind expression).Computes memory below operands (operands.push value) := by
  have place : (operands.kinds ++ below).length = below.length + operands.kinds.length := by
    rw [List.length_append, Nat.add_comm]
  refine ⟨.stack value.kind (operands.kinds ++ below).length, expression, value, rfl, means,
    inRange_stack _ value, ?_, ?_⟩
  · rintro kind depth ⟨⟩
    omega
  · rw [place]
    exact agrees.push value

/-- Reading the top value. -/
theorem means_read {value : Whole} {rest : List Whole} {locals : Nat → Option Whole}
    (agrees : Agrees below.length ⟨value :: rest, locals⟩ memory) :
    Means memory (.read (.stack value.kind (rest.map Whole.kind ++ below).length)) value := by
  rw [List.length_append, Nat.add_comm]
  exact congrArg some agrees.top

theorem unary_computes (site : Site) {value result : Whole} {rest : List Whole}
    {locals : Nat → Option Whole} {make : Expression → Expression}
    (agrees : Agrees below.length ⟨value :: rest, locals⟩ memory)
    (means : ∀ {operand}, Means memory operand value → Means memory (make operand) result) :
    (unary site value.kind result.kind make).Computes memory below ⟨value :: rest, locals⟩
      ⟨result :: rest, locals⟩ := by
  obtain ⟨target, expression, assigned, made, others⟩ :=
    pushes_computes agrees.pop (means (means_read agrees))
  exact ⟨target, expression, assigned, bindState_eq_ok.mpr ⟨_, _, pop_cons .., made⟩, others⟩

theorem binary_computes (site : Site) {right left result : Whole} {rest : List Whole}
    {locals : Nat → Option Whole} {make : Expression → Expression → Expression}
    (agrees : Agrees below.length ⟨right :: left :: rest, locals⟩ memory)
    (means : ∀ {first second}, Means memory first left → Means memory second right →
      Means memory (make first second) result) :
    (binary site left.kind right.kind result.kind make).Computes memory below
      ⟨right :: left :: rest, locals⟩ ⟨result :: rest, locals⟩ := by
  obtain ⟨target, expression, assigned, made, others⟩ :=
    pushes_computes agrees.pop.pop (means (means_read agrees.pop) (means_read agrees))
  refine ⟨target, expression, assigned, ?_, others⟩
  exact bindState_eq_ok.mpr ⟨_, _, pop_cons .., bindState_eq_ok.mpr ⟨_, _, pop_cons .., made⟩⟩

/-- Where the machine computes a value of two others, so does an expression that means the same for
values of the kinds that are taken. -/
theorem binary_stepped (site : Site) {before after : Operands} {on second : Kind}
    {compute : Whole → Whole → Option Whole} {make : Expression → Expression → Expression}
    (stepped : before.binary (fun a b => Operands.ofKind on (compute · b) a) = some after)
    (agrees : Agrees below.length before memory)
    (kinds : ∀ {a b c : Whole}, a.kind = on → compute a b = some c → b.kind = second ∧ c.kind = on)
    (means : ∀ {a b c : Whole} {left right : Expression}, a.kind = on → compute a b = some c →
      Means memory left a → Means memory right b → Means memory (make left right) c) :
    (binary site on second on make).Computes memory below before after := by
  obtain ⟨b, a, rest, c, whole, made, rfl⟩ := Operands.exists_of_binary stepped
  obtain ⟨same, computed⟩ := Operands.ofKind_eq_some.mp made
  obtain ⟨sameRight, sameResult⟩ := kinds same computed
  rw [whole] at agrees ⊢
  have simulated := binary_computes site agrees (means same computed)
  rwa [sameRight, sameResult, same] at simulated

theorem store_computes (site : Site) {value : Whole} {rest : List Whole}
    {locals : Nat → Option Whole} (agrees : Agrees below.length ⟨value :: rest, locals⟩ memory)
    (index : Nat) :
    (storeLocal site value.kind index).Computes memory below ⟨value :: rest, locals⟩
      ⟨rest, Operands.stored locals index value⟩ := by
  refine ⟨.slot index, _, value, bindState_eq_ok.mpr ⟨_, _, pop_cons .., rfl⟩, means_read agrees,
    inRange_slot index value, nofun, ?_⟩
  exact agrees.pop.assign fun _ _ => Operands.stored_eq_some

theorem increment_computes {operands : Operands} (agrees : Agrees below.length operands memory)
    {index : Nat} {value : Int32} (here : operands.locals index = some (.int value))
    (delta : Int) :
    Simulation.Computes (pure (incrementLocal index delta)) memory below operands { operands with
      locals := Function.update operands.locals index (some (.int (value + .ofInt delta))) } := by
  have read : Means memory (.read (.slot index)) (.int value) :=
    congrArg some (agrees.locals index _ here)
  refine ⟨.slot index, _, .int (value + .ofInt delta), rfl, means_addInt read (means_int delta),
    inRange_slot index _, nofun, agrees.assign fun other held found => ?_⟩
  by_cases same : other = index
  · subst same
    rw [Function.update_self] at found
    exact .inl ⟨rfl, (Option.some.inj found).symm⟩
  · rw [Function.update_of_ne same] at found
    exact .inr ⟨same, found⟩

theorem conversionKinds_of_convert? {conversion : Conversion} {a b : Whole}
    (computed : a.convert? conversion = some b) :
    conversionKinds conversion = (a.kind, b.kind) := by
  cases conversion <;> cases a <;> cases computed <;> rfl

/-- Where the machine can run an instruction, its translation does what the machine does. -/
theorem translate_computes (site : Site) {instruction : Instruction} {before after : Operands}
    (stepped : before.step instruction = some after)
    (agrees : Agrees below.length before memory) :
    (translate site instruction).Computes memory below before after := by
  cases instruction with
  | constInt value =>
    cases stepped
    have means : Means memory (.constant (.integer value)) (.int value) := rfl
    exact pushes_computes agrees means
  | constLong value =>
    cases stepped
    have means : Means memory (.constant (.long (.ofNat value))) (.long (.ofNat value)) := rfl
    exact pushes_computes agrees means
  | loadConstant value =>
    rcases value with ((value | value | value | value | value) | _ | _ | _ | _)
    · cases stepped
      have means : Means memory (.constant (.integer value)) (.int value) := rfl
      exact pushes_computes agrees means
    · cases stepped
    · cases stepped
      have means : Means memory (.constant (.long value)) (.long value) := rfl
      exact pushes_computes agrees means
    all_goals cases stepped
  | load kind index =>
    obtain ⟨value, found, rfl⟩ := Option.map_eq_some_iff.mp stepped
    obtain ⟨other, here, restricted⟩ := Option.bind_eq_some_iff.mp found
    obtain ⟨rfl, same⟩ := Operands.ofKind_eq_some.mp restricted
    obtain rfl := Option.some.inj same
    have means : Means memory (.read (.slot index)) other :=
      congrArg some (agrees.locals index other here)
    exact pushes_computes agrees means
  | store kind index =>
    obtain ⟨value, rest, whole, rfl, rfl⟩ := Operands.exists_of_store stepped
    rw [whole] at agrees ⊢
    exact store_computes site agrees index
  | increment index delta =>
    obtain ⟨value, here, rfl⟩ := Operands.exists_of_increment stepped
    exact increment_computes agrees here delta
  | arithmetic op on =>
    exact binary_stepped site stepped agrees
      (fun same computed => same ▸ Whole.kinds_of_arithmetic? computed) means_arithmetic
  | negate on =>
    obtain ⟨value, rest, result, whole, made, rfl⟩ := Operands.exists_of_unary stepped
    obtain ⟨same, computed⟩ := Operands.ofKind_eq_some.mp made
    obtain rfl := Option.some.inj computed
    rw [whole] at agrees ⊢
    have simulated := unary_computes site agrees (means_negation same)
    rw [value.kind_negate, same] at simulated
    exact simulated
  | shift op on =>
    exact binary_stepped site stepped agrees
      (fun same computed => same ▸ Whole.kinds_of_shift? computed) means_shifted
  | bitwise op on =>
    exact binary_stepped site stepped agrees
      (fun same computed => same ▸ Whole.kinds_of_bitwise? computed) fun _ => means_bitwise
  | convert conversion =>
    obtain ⟨value, rest, result, whole, computed, rfl⟩ := Operands.exists_of_unary stepped
    rw [whole] at agrees ⊢
    rw [translate, conversionKinds_of_convert? computed]
    exact unary_computes site agrees (means_converted computed)
  | _ => cases stepped

/-! ## Instructions in a row -/

section Run

variable (scope : Scope) (block : Flow.Block)

theorem translateRun_cons {placed : Placed} {rest : List Placed} {stack between after : Stack}
    {first later : List Statement}
    (here : translate (scope.site block placed) placed.instruction stack =
      .ok (.plain first, between))
    (there : translateRun scope block rest between = .ok (.plain later, after)) :
    translateRun scope block (placed :: rest) stack = .ok (.plain (first ++ later), after) := by
  cases rest with
  | nil =>
    cases there
    rw [translateRun, here, List.append_nil]
  | cons next rest => exact bindState_eq_ok.mpr ⟨_, _, here, bindState_eq_ok.mpr ⟨_, _, there, rfl⟩⟩

/-- The assignments of a row of instructions do what the machine does. -/
theorem run_computes {instructions : List Placed} {before after : Operands}
    (ran : before.run instructions = some after)
    (agrees : Agrees below.length before memory) :
    ∃ statements memory',
      translateRun scope block instructions (before.kinds ++ below) =
        .ok (.plain statements, after.kinds ++ below) ∧
      Statement.executeAll memory statements = some memory' ∧
      Agrees below.length after memory' ∧
      held memory' below = held memory below ∧
      ∀ holder, InRange holder (memory holder) → InRange holder (memory' holder) := by
  induction instructions generalizing before memory with
  | nil =>
    cases ran
    exact ⟨[], memory, rfl, rfl, agrees, rfl, fun _ fits => fits⟩
  | cons placed rest ih =>
    obtain ⟨between, stepped, ran⟩ := Option.bind_eq_some_iff.mp ran
    obtain ⟨target, expression, value, made, means, fits, above, agrees⟩ :=
      translate_computes (scope.site block placed) stepped agrees
    obtain ⟨later, memory', translated, executed, agrees, same, keeps⟩ := ih ran agrees
    refine ⟨.assign target expression :: later, memory',
      translateRun_cons scope block made translated,
      (Statement.executeAll_assign means later).trans executed, agrees, same.trans ?_,
      fun holder held => keeps holder ?_⟩
    · refine held_congr fun kind depth low => Function.update_of_ne (fun here => ?_) ..
      exact Nat.not_le_of_lt low (above kind depth here.symm)
    · by_cases here : holder = target
      · subst here
        rwa [Function.update_self]
      · rwa [Function.update_of_ne here]

/-- **Arithmetic means what the machine means.**  Variables that hold values in their ranges stand
for a state of the machine.  Wherever the machine can run instructions from there, which the kinds
of the values decide, the assignments leave in the variables what the machine computes, and no
variable leaves its range. -/
theorem translateRun_computes (instructions : List Placed) {kinds : Stack}
    {types : Nat → Option Kind} (ranged : Ranged memory below.length kinds types) :
    ∃ before : Operands, before.kinds = kinds ∧
      (∀ index, (before.locals index).map Whole.kind = types index) ∧
      Agrees below.length before memory ∧
      ∀ after, before.run instructions = some after → ∃ statements memory',
        translateRun scope block instructions (kinds ++ below) =
          .ok (.plain statements, after.kinds ++ below) ∧
        Statement.executeAll memory statements = some memory' ∧
        Agrees below.length after memory' ∧
        held memory' below = held memory below ∧
        ∀ holder, InRange holder (memory holder) → InRange holder (memory' holder) := by
  obtain ⟨before, rfl, sameTypes, agrees⟩ := ranged.exists_agrees
  exact ⟨before, rfl, sameTypes, agrees, fun after ran => run_computes scope block ran agrees⟩

end Run

/-! ## Leaving the ranges -/

/-- Shifts a long by the sum of an int and two. -/
def shiftingBlock : Flow.Block where
  start := 0
  stop := 6
  first := 0
  body :=
    [⟨0, 0x1f, .load .long 1⟩, ⟨1, 0x1a, .load .int 0⟩, ⟨2, 0x05, .constInt 2⟩,
      ⟨3, 0x60, .arithmetic .add .int⟩, ⟨4, 0x7d, .shift .unsignedRight .long⟩,
      ⟨5, 0x40, .store .long 1⟩]

/-- The largest int, and a long whose bits are all set. -/
def extremes : Memory Unit
  | .slot 0 => holding (.int 2147483647)
  | .slot 1 => holding (.long (-1))
  | _ => .other ()

/-- The kinds of the first two local variables. -/
def extremeTypes : Nat → Option Kind
  | 0 => some .int
  | 1 => some .long
  | _ => none

theorem ranged_extremes : Ranged extremes 1 [] extremeTypes := by
  refine ⟨List.forall_mem_nil _, fun index kind type => ?_⟩
  match index, type with
  | 0, rfl => exact isWhole_holding (.int 2147483647)
  | 1, rfl => exact isWhole_holding (.long (-1))

theorem run_shiftingBlock {locals : Nat → Option Whole}
    (int : locals 0 = some (.int 2147483647)) (long : locals 1 = some (.long (-1))) :
    Operands.run ⟨[], locals⟩ shiftingBlock.body =
      some ⟨[], Operands.stored locals 1 (.long 9223372036854775807)⟩ := by
  have first : (⟨[], locals⟩ : Operands).step (.load .long 1) = some ⟨[.long (-1)], locals⟩ :=
    Operands.step_load long rfl
  have second : (⟨[.long (-1)], locals⟩ : Operands).step (.load .int 0) =
      some ⟨[.int 2147483647, .long (-1)], locals⟩ := Operands.step_load int rfl
  rw [Operands.run, shiftingBlock, List.foldlM_cons, first, Option.bind_eq_bind, Option.bind_some,
    List.foldlM_cons, second]
  rfl

/-- The sum wraps around, and only its low six bits count. -/
theorem translateRun_shiftingBlock_computes : Ranged extremes 1 [] extremeTypes ∧
    ∃ statements memory',
      translateRun ⟨.empty, ⟨"Lone"⟩, "run"⟩ shiftingBlock shiftingBlock.body [.reference] =
        .ok (.plain statements, [.reference]) ∧
      Statement.executeAll extremes statements = some memory' ∧
      memory' (.slot 1) = .bigInteger 9223372036854775807 ∧
      held memory' [.reference] = held extremes [.reference] := by
  have ranged : Ranged extremes ([.reference] : Stack).length [] extremeTypes := ranged_extremes
  obtain ⟨⟨stack, locals⟩, kinds, types, agrees, computes⟩ :=
    translateRun_computes ⟨.empty, ⟨"Lone"⟩, "run"⟩ shiftingBlock shiftingBlock.body ranged
  obtain rfl : stack = [] := List.map_eq_nil_iff.mp kinds
  have int : locals 0 = some (.int 2147483647) := agrees.local_eq (types 0) rfl
  have long : locals 1 = some (.long (-1)) := agrees.local_eq (types 1) rfl
  obtain ⟨statements, memory', translated, executed, agrees, same, _⟩ :=
    computes _ (run_shiftingBlock int long)
  exact ⟨ranged_extremes, statements, memory', translated, executed,
    agrees.locals 1 (.long 9223372036854775807) rfl, same⟩

end Bytescript.Translation
