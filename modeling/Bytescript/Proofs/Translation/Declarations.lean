import Bytescript.Proofs.Distinct
import Bytescript.Proofs.Script.Label
import Bytescript.Proofs.Translation.MethodReferences

/-!
# Methods declare their variables

A method declares what its blocks introduce, although they also use values that other blocks left
on the stack.  Such a value was assigned by the block that left it or, since the first block begins
with an empty stack, by one before that; and the exception that a handler finds is assigned where
it is caught.  So every variable of a method is one of its parameters, the object that it is called
on, or a variable that it declares, and it is no two of these.
-/

set_option autoImplicit false

namespace Bytescript

open Script

/-! ## Names of variables -/

theorem kindLetter_inj {one other : Kind} (same : kindLetter one = kindLetter other) :
    one = other := by
  revert same
  cases one <;> cases other <;> decide

/-- Different variables have different names. -/
theorem Script.Variable.name_injective : Function.Injective Variable.name := by
  intro one other same
  have characters := congrArg String.toList same
  -- Names for different purposes begin with different letters.
  cases one <;> cases other <;> simp [name] at characters ⊢
  case slot.slot => exact toDigits_inj characters
  case stack.stack => exact ⟨kindLetter_inj characters.1, toDigits_inj characters.2⟩
  case temporary.temporary => exact toDigits_inj characters

namespace Translation

open Bytescript.Flow

variable {flow : ControlFlow} {codes : Codes}

/-! ## What a method has -/

/-- Parameters take one local variable after the other. -/
theorem parameterSlots_increasing (first : Nat) (types : List FieldType) :
    (∀ parameter ∈ parameterSlots first types, first ≤ parameter.1) ∧
      (parameterSlots first types).Pairwise (·.1 < ·.1) := by
  induction types generalizing first with
  | nil => exact ⟨List.forall_mem_nil _, .nil⟩
  | cons type rest ih =>
    obtain ⟨later, increasing⟩ := ih (first + type.slots)
    have positive : 0 < type.slots := by
      rw [FieldType.slots]
      split <;> omega
    refine ⟨List.forall_mem_cons.mpr ⟨le_rfl, fun parameter member => ?_⟩,
      List.pairwise_cons.mpr ⟨fun parameter member => ?_, increasing⟩⟩
    · exact (Nat.le_add_right _ _).trans (later parameter member)
    · exact lt_of_lt_of_le (Nat.lt_add_of_pos_right positive) (later parameter member)

namespace MethodCode

/-- The variables of the parameters of a function. -/
def parameterVariables (code : MethodCode) : List Variable :=
  (parametersOf code.isStatic code.type).map fun (slot, _) => .slot slot

/-- The lines of a function that make its variables, each with the variables that it makes. -/
def bindings (code : MethodCode) : List (Line × List Variable) :=
  (.opening (functionHead code.owner code.name code.type code.isStatic
      (code.parameterVariables.map Variable.name)), code.parameterVariables)
    :: (if code.isStatic then [] else [(.plain "var lc0 = this;", [.slot 0])])
    ++ (declarationLines code.declared).map fun line => (line, code.declared)

/-- All variables that the lines of a function make. -/
def bound (code : MethodCode) : List Variable := code.bindings.flatMap Prod.snd

/-- Every variable that occurs in a function is made by exactly one of its lines. -/
structure DeclaresVariables (code : MethodCode) : Prop where
  /-- A line makes variables, ends the function, or only uses variables that are made. -/
  uses : ∀ line ∈ code.lines, line ∈ code.bindings.map Prod.fst ∨
    line = .closing (functionEnd code.isStatic) ∨
      line.Shows fun part => ∀ source ∈ part.usedVariables, source = .caught ∨ source ∈ code.bound
  makes : ∀ line ∈ code.bindings.map Prod.fst, line ∈ code.lines
  once : (code.bound.map Variable.name).Nodup

end MethodCode

/-! ## Declarations -/

/-- A method declares whatever it introduces that is not there from the start. -/
theorem mem_declaredVariables {isStatic : Bool} {parameters : List (Nat × FieldType)}
    {source : Variable} :
    source ∈ declaredVariables isStatic parameters flow codes ↔
      source ∈ introduced flow codes ∧ isGiven isStatic parameters source = false := by
  rw [declaredVariables, List.mem_mergeSort, List.mem_filter, List.mem_eraseDups,
    Bool.not_eq_true']

theorem nodup_declaredVariables (isStatic : Bool) (parameters : List (Nat × FieldType)) :
    (declaredVariables isStatic parameters flow codes).Nodup :=
  (List.mergeSort_perm _ _).nodup_iff.mpr ((nodup_eraseDups _).filter _)

namespace MethodCode

variable {code : MethodCode} {source : Variable}

/-- The variables that a function has from the start: its parameters, and the object that it is
called on. -/
def given (code : MethodCode) : List Variable :=
  code.parameterVariables ++ if code.isStatic then [] else [.slot 0]

theorem isGiven_iff : isGiven code.isStatic (parametersOf code.isStatic code.type) source = true ↔
    source = .caught ∨ source ∈ code.given := by
  rw [given, parameterVariables]
  cases source <;> cases code.isStatic <;> simp [isGiven, or_comm]

theorem bound_eq : code.bound = code.given ++ code.declared := by
  rw [bound, bindings, declarationLines, given]
  cases code.isStatic <;> cases code.declared <;> simp

theorem nodup_parameterVariables (code : MethodCode) : code.parameterVariables.Nodup := by
  obtain ⟨_, increasing⟩ :=
    parameterSlots_increasing (if code.isStatic then 0 else 1) code.type.parameters
  refine List.pairwise_map.mpr (increasing.imp fun less same => ?_)
  exact absurd (Variable.slot.inj same) less.ne

/-- The object that a method is called on is not one of its parameters. -/
theorem object_notMem_parameterVariables (object : code.isStatic = false) :
    .slot 0 ∉ code.parameterVariables := by
  intro member
  obtain ⟨⟨slot, type⟩, listed, same⟩ := List.mem_map.mp member
  cases same
  rw [parametersOf, object] at listed
  exact absurd ((parameterSlots_increasing 1 _).1 _ listed) (by simp)

theorem nodup_given (code : MethodCode) : code.given.Nodup := by
  rw [given]
  split
  next => simpa using nodup_parameterVariables code
  next object =>
    refine List.nodup_append.mpr ⟨nodup_parameterVariables code, List.nodup_singleton _, ?_⟩
    rintro source member _ here rfl
    cases List.mem_singleton.mp here
    exact object_notMem_parameterVariables (Bool.eq_false_iff.mpr object) member

/-- The variables of a method are declared as its flow and the code of its blocks ask for. -/
def DeclaresFor (code : MethodCode) (flow : ControlFlow) (codes : Codes) : Prop :=
  code.declared =
    declaredVariables code.isStatic (parametersOf code.isStatic code.type) flow codes

/-- Whatever a method introduces is bound. -/
theorem DeclaresFor.mem_bound (declares : code.DeclaresFor flow codes)
    (found : IsIntroduced flow codes source) : source = .caught ∨ source ∈ code.bound := by
  rcases found with caught | found
  · exact .inl caught
  rw [bound_eq, List.mem_append]
  cases given : isGiven code.isStatic (parametersOf code.isStatic code.type) source with
  | false => exact .inr (.inr (declares ▸ mem_declaredVariables.mpr ⟨found, given⟩))
  | true => exact (isGiven_iff.mp given).imp_right .inl

/-- No variable is bound twice. -/
theorem DeclaresFor.nodup_bound (declares : code.DeclaresFor flow codes) : code.bound.Nodup := by
  rw [bound_eq]
  refine List.nodup_append.mpr ⟨code.nodup_given, declares ▸ nodup_declaredVariables _ _, ?_⟩
  rintro source here _ there rfl
  have fresh := (mem_declaredVariables.mp (declares ▸ there)).2
  exact absurd (isGiven_iff.mpr (.inr here)) (Bool.eq_false_iff.mp fresh)

theorem map_fst_bindings (code : MethodCode) : code.bindings.map Prod.fst =
    .opening (functionHead code.owner code.name code.type code.isStatic
        ((parametersOf code.isStatic code.type).map fun (slot, _) => (Variable.slot slot).name))
      :: (if code.isStatic then [] else [.plain "var lc0 = this;"])
      ++ declarationLines code.declared := by
  have self : List.map Prod.fst
      (if code.isStatic then [] else [(Line.plain "var lc0 = this;", [Variable.slot 0])]) =
        if code.isStatic then [] else [.plain "var lc0 = this;"] := by
    split <;> rfl
  rw [bindings, List.map_append, List.map_cons, self, parameterVariables, List.map_map,
    List.map_map]
  exact congrArg _ (List.map_id _)

/-- The lines of a function make its variables, end it, bring its arguments into their ranges, or
belong to its body. -/
theorem mem_lines {line : Line} : line ∈ code.lines ↔
    line ∈ code.bindings.map Prod.fst ∨ line = .closing (functionEnd code.isStatic) ∨
      line ∈ statementLines (coercions (parametersOf code.isStatic code.type)) ∨
        line ∈ code.body.lines := by
  rw [lines, map_fst_bindings]
  simp only [List.cons_append, List.mem_cons, List.mem_append, List.not_mem_nil, or_false]
  tauto

end MethodCode

/-- Gives a divisor back, or zero if a division by it fails.  The divisor is put below the values
that are divided, and stays on the stack from one block to the next. -/
def checkedDivisor : Method where
  access := .ofFlags 0x0001
  name := "check"
  descriptor := "(II)I"
  code := some {
    maxStack := 3
    maxLocals := 4
    bytecode := [0x1b, 0x1c, 0x5a, 0x6c, 0x99, 0x00, 0x04, 0xac, 0xac, 0x4e, 0x03, 0xac]
    exceptionTable := [⟨0, 8, 9, none⟩]
    lineNumbers := [] }
  exceptions := []
  annotations := .empty

/-- A class whose only method checks a divisor. -/
def divisorClass : ClassFile where
  version := ⟨52, 0⟩
  pool := .empty
  access := .ofFlags 0x0001
  name := ⟨"Divisor"⟩
  superClass := none
  interfaces := []
  fields := []
  methods := [checkedDivisor]
  sourceFile := none
  annotations := .empty

end Translation

end Bytescript
