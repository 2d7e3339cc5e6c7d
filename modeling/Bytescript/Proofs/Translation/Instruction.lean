import Bytescript.Proofs.Failure
import Bytescript.Translation.Instruction

/-!
# What instructions become

Most instructions become assignments and calls, and leave it to the next instruction how the
block is left.  The others say so themselves: a branch, a switch and a return name exactly the
offsets that the instruction can lead to, and a throw ends with the statement that throws.
-/

set_option autoImplicit false

namespace Bytescript

namespace Script

/-- An expression that is written as a call. -/
def Expression.IsCall : Expression → Prop
  | support _ _ | staticCall _ _ _ _ | methodCall _ _ _ _ | exactCall _ _ _ _ => True
  | _ => False

/-- A statement that assigns, or else makes a call. -/
def Statement.IsAction : Statement → Prop
  | assign _ _ | store _ _ => True
  | evaluate expression | throw expression => expression.IsCall

end Script

namespace Translation

open Script

/-! ## Results of a simulation -/

/-- Wherever a simulation succeeds, its result has a property. -/
def Simulation.Gives {α : Type} (simulation : Simulation α) (property : α → Prop) : Prop :=
  ∀ stack value after, simulation stack = .ok (value, after) → property value

section Rules

variable {α β : Type} {property : β → Prop}

theorem gives_pure {value : β} (holds : property value) :
    Simulation.Gives (pure value) property := by
  intro _ _ _ finished
  cases finished
  exact holds

theorem gives_bind {first : Simulation α} {next : α → Simulation β} {between : α → Prop}
    (here : first.Gives between) (there : ∀ value, between value → (next value).Gives property) :
    Simulation.Gives (first >>= next) property := by
  intro stack value after finished
  obtain ⟨middle, rest, one, two⟩ := bindState_eq_ok.mp finished
  exact there middle (here stack middle rest one) rest value after two

/-- Whatever the first step gives. -/
theorem gives_after {first : Simulation α} {next : α → Simulation β}
    (there : ∀ value, (next value).Gives property) : Simulation.Gives (first >>= next) property :=
  have anything : first.Gives fun _ => True := fun _ _ _ _ => trivial
  gives_bind anything fun value _ => there value

theorem gives_lift {computation : Except Failure α} {between : α → Prop}
    (holds : ∀ value, computation = .ok value → between value) :
    Simulation.Gives (liftM computation) between := by
  intro _ value _ finished
  obtain ⟨middle, made, same⟩ := bind_eq_ok.mp finished
  cases same
  exact holds value made

theorem gives_failure {failure : Failure} :
    Simulation.Gives (fun _ => .error failure) property := by
  intro _ _ _ finished
  cases finished

end Rules

/-! ## Actions -/

/-- Only assignments and calls, after which the next instruction follows. -/
def Effect.IsPlain (effect : Effect) : Prop :=
  effect.exit = none ∧ ∀ statement ∈ effect.statements, statement.IsAction

theorem isPlain_plain {statements : List Statement}
    (actions : ∀ statement ∈ statements, statement.IsAction) : (Effect.plain statements).IsPlain :=
  ⟨rfl, actions⟩

theorem isPlain_nil : (Effect.plain []).IsPlain := isPlain_plain (by simp)

theorem isPlain_single {statement : Statement} (action : statement.IsAction) :
    (Effect.plain [statement]).IsPlain :=
  isPlain_plain (by simpa using action)

theorem pushExpression_gives (kind : Kind) (expression : Expression) :
    (pushExpression kind expression).Gives Statement.IsAction :=
  gives_after fun _ => gives_pure trivial

theorem pushes_gives (kind : Kind) (expression : Expression) :
    (pushes kind expression).Gives Effect.IsPlain :=
  gives_bind (pushExpression_gives kind expression) fun _ action =>
    gives_pure (isPlain_single action)

theorem pushCopies_gives (values : List (Kind × Variable)) :
    (pushCopies values).Gives fun copies => ∀ statement ∈ copies, statement.IsAction := by
  induction values with
  | nil => exact gives_pure (by simp)
  | cons first rest ih =>
    refine gives_bind (pushExpression_gives _ _) ?_
    intro copy here
    refine gives_bind ih ?_
    intro copies there
    exact gives_pure (List.forall_mem_cons.mpr ⟨here, there⟩)

theorem rearrange_gives (site : Site) (how : Rearrangement) :
    (rearrange site how).Gives Effect.IsPlain := by
  refine gives_after fun top => gives_after fun under => ?_
  split
  · exact gives_after fun _ => gives_bind (pushCopies_gives top) fun copies actions =>
      gives_pure (isPlain_plain actions)
  · refine gives_bind (pushCopies_gives _) fun copies actions => gives_pure (isPlain_plain ?_)
    intro statement member
    rcases List.mem_append.mp member with saved | copied
    · obtain ⟨_, _, rfl⟩ := List.mem_map.mp saved
      trivial
    · exact actions statement copied

theorem dropOne_gives (site : Site) : (dropOne site).Gives Effect.IsPlain := by
  refine gives_after fun ⟨kind, _⟩ => ?_
  cases wide : kind.isWide with
  | true =>
    simp only [wide]
    exact gives_failure
  | false =>
    simp only [wide]
    exact gives_pure isPlain_nil

theorem dropTwo_gives (site : Site) : (dropTwo site).Gives Effect.IsPlain :=
  gives_after fun _ => gives_pure isPlain_nil

theorem loadConstant_gives (site : Site) (value : Loadable) :
    (loadConstant site value).Gives Effect.IsPlain := by
  cases value with
  | constant value => exact pushes_gives _ _
  | classLiteral name => exact pushes_gives _ _
  | methodHandle | methodType | dynamic => exact gives_failure

theorem call_gives {type : MethodType} {expression : Expression} (isCall : expression.IsCall) :
    (call type expression).Gives Effect.IsPlain := by
  rw [call]
  split
  · exact pushes_gives _ _
  · exact gives_pure (isPlain_single isCall)

theorem invokeVirtual_gives (site : Site) (method : MemberRef) :
    (invokeVirtual site method).Gives Effect.IsPlain := by
  refine gives_after fun type => gives_after fun arguments => gives_after fun receiver =>
    gives_after fun _ => call_gives ?_
  rw [virtualCall]
  split
  · split <;> trivial
  · trivial

theorem invokeSpecial_gives (site : Site) (method : MemberRef) :
    (invokeSpecial site method).Gives Effect.IsPlain :=
  gives_after fun _ => gives_after fun _ => gives_after fun _ => gives_after fun _ =>
    call_gives trivial

theorem invokeStatic_gives (site : Site) (method : MemberRef) :
    (invokeStatic site method).Gives Effect.IsPlain :=
  gives_after fun _ => gives_after fun _ => gives_after fun _ => call_gives trivial

/-! ## All instructions -/

/-- An instruction with which execution always goes on to the next one. -/
def IsStraight (instruction : Instruction) : Prop :=
  instruction.branchTargets = [] ∧ instruction.fallsThrough = true

/-- What an effect says about the end of its block fits the instruction. -/
structure Effect.Fits (site : Site) (instruction : Instruction) (effect : Effect) : Prop where
  targets : ∀ offset, offset ∈ (effect.exit.getD (.goto site.next)).targets ↔
    offset ∈ instruction.branchTargets ∨
      (instruction.fallsThrough = true ∧ offset = site.next)
  throws : effect.exit = some .throw →
    ∃ exception, effect.statements.getLast? = some (.throw exception)
  actions : ∀ statement ∈ effect.statements, statement.IsAction

theorem Effect.IsPlain.fits {site : Site} {instruction : Instruction} {effect : Effect}
    (plain : effect.IsPlain) (straight : IsStraight instruction) :
    effect.Fits site instruction := by
  refine ⟨fun offset => ?_, ?_, plain.2⟩
  · simp [plain.1, straight.1, straight.2, Exit.targets]
  · rw [plain.1]
    intro exit
    cases exit

/-- An effect that only says how the block is left, without throwing. -/
theorem fits_ends {site : Site} {instruction : Instruction} {exit : Exit}
    (targets : ∀ offset, offset ∈ exit.targets ↔ offset ∈ instruction.branchTargets ∨
      (instruction.fallsThrough = true ∧ offset = site.next))
    (leaves : exit ≠ .throw) : (Effect.ends exit).Fits site instruction :=
  ⟨targets, fun same => absurd (Option.some.inj same) leaves, by simp [Effect.ends]⟩

theorem fits_branches {site : Site} {instruction : Instruction} {condition : Expression}
    {target : Nat} (only : instruction.branchTargets = [target])
    (falls : instruction.fallsThrough = true) :
    (branches site condition target).Fits site instruction :=
  fits_ends (by simp [only, falls, Exit.targets]) (by simp)

/-- An effect that leaves the block for the targets of the instruction. -/
theorem fits_jumps {site : Site} {instruction : Instruction} {exit : Exit}
    (targets : ∀ offset, offset ∈ exit.targets ↔ offset ∈ instruction.branchTargets)
    (stays : instruction.fallsThrough = false) (leaves : exit ≠ .throw) :
    (Effect.ends exit).Fits site instruction :=
  fits_ends (by simp [targets, stays]) leaves

theorem switches_gives {site : Site} {instruction : Instruction} {cases : List (Int32 × Nat)}
    {default : Nat} (targets : instruction.branchTargets = default :: cases.map Prod.snd)
    (stays : instruction.fallsThrough = false) :
    (switches site cases default).Gives (Effect.Fits site instruction) := by
  refine gives_after fun key => gives_pure (fits_jumps (fun offset => ?_) stays (by simp))
  rw [targets, Exit.targets, List.mem_append, List.mem_singleton, List.mem_cons, or_comm]

theorem map_snd_tableCases (low : Int32) (targets : List Nat) :
    (tableCases low targets).map Prod.snd = targets := by
  rw [tableCases, List.map_map]
  exact List.zipIdx_map_fst 0 targets

theorem leaves_gives (site : Site) (kind : Option Kind) :
    (leaves site kind).Gives (Effect.Fits site (.leave kind)) := by
  cases kind with
  | none => exact gives_pure (fits_jumps (fun _ => .rfl) rfl (by simp))
  | some kind =>
    exact gives_after fun value => gives_pure (fits_jumps (fun _ => .rfl) rfl (by simp))

theorem throws_gives (site : Site) : (throws site).Gives (Effect.Fits site .throw) := by
  refine gives_after fun exception => gives_pure ⟨fun offset => ?_, ?_, ?_⟩
  · simp [Exit.targets, Instruction.branchTargets, Instruction.fallsThrough]
  · exact fun _ => ⟨nonNull exception, rfl⟩
  · intro statement member
    rw [List.mem_singleton.mp member]
    trivial

/-- What becomes of an instruction fits it. -/
theorem translate_gives (site : Site) (instruction : Instruction) :
    (translate site instruction).Gives (Effect.Fits site instruction) := by
  have ordinary {simulation : Simulation Effect} (straight : IsStraight instruction)
      (plain : simulation.Gives Effect.IsPlain) :
      simulation.Gives (Effect.Fits site instruction) := fun stack effect after finished =>
    (plain stack effect after finished).fits straight
  cases instruction with
  | nop => exact ordinary ⟨rfl, rfl⟩ (gives_pure isPlain_nil)
  | constNull | constInt | constLong | constFloat | constDouble | load | new =>
    exact ordinary ⟨rfl, rfl⟩ (pushes_gives _ _)
  | loadConstant value => exact ordinary ⟨rfl, rfl⟩ (loadConstant_gives site value)
  | store kind index =>
    exact ordinary ⟨rfl, rfl⟩ (gives_after fun _ => gives_pure (isPlain_single trivial))
  | arrayLoad element =>
    exact ordinary ⟨rfl, rfl⟩ (gives_after fun _ => gives_after fun _ => pushes_gives _ _)
  | arrayStore element =>
    exact ordinary ⟨rfl, rfl⟩ (gives_after fun _ => gives_after fun _ => gives_after fun _ =>
      gives_pure (isPlain_single trivial))
  | pop => exact ordinary ⟨rfl, rfl⟩ (dropOne_gives site)
  | pop2 => exact ordinary ⟨rfl, rfl⟩ (dropTwo_gives site)
  | shuffle how => exact ordinary ⟨rfl, rfl⟩ (rearrange_gives site _)
  | arithmetic | shift | bitwise | compare =>
    exact ordinary ⟨rfl, rfl⟩ (gives_after fun _ => gives_after fun _ => pushes_gives _ _)
  | negate | convert | newArray | newReferenceArray | arrayLength | instanceOf =>
    exact ordinary ⟨rfl, rfl⟩ (gives_after fun _ => pushes_gives _ _)
  | increment index delta => exact ordinary ⟨rfl, rfl⟩ (gives_pure (isPlain_single trivial))
  | ifZero | ifNull => exact gives_after fun _ => gives_pure (fits_branches rfl rfl)
  | ifCompare | ifSame =>
    exact gives_after fun _ => gives_after fun _ => gives_pure (fits_branches rfl rfl)
  | goto target => exact gives_pure (fits_jumps (fun _ => .rfl) rfl (by simp))
  | jumpSubroutine | returnSubroutine | invokeDynamic => exact gives_failure
  | tableSwitch default low high targets =>
    exact switches_gives (by rw [map_snd_tableCases]; rfl) rfl
  | lookupSwitch default pairs => exact switches_gives rfl rfl
  | leave kind => exact leaves_gives site kind
  | getStatic field =>
    exact ordinary ⟨rfl, rfl⟩ (gives_after fun _ => gives_after fun _ => pushes_gives _ _)
  | putStatic field =>
    exact ordinary ⟨rfl, rfl⟩ (gives_after fun _ => gives_after fun _ => gives_after fun _ =>
      gives_pure (isPlain_single trivial))
  | getField field =>
    exact ordinary ⟨rfl, rfl⟩ (gives_after fun _ => gives_after fun _ => gives_after fun _ =>
      pushes_gives _ _)
  | putField field =>
    exact ordinary ⟨rfl, rfl⟩ (gives_after fun _ => gives_after fun _ => gives_after fun _ =>
      gives_after fun _ => gives_pure (isPlain_single trivial))
  | invokeVirtual method | invokeInterface method =>
    exact ordinary ⟨rfl, rfl⟩ (invokeVirtual_gives site method)
  | invokeSpecial method => exact ordinary ⟨rfl, rfl⟩ (invokeSpecial_gives site method)
  | invokeStatic method => exact ordinary ⟨rfl, rfl⟩ (invokeStatic_gives site method)
  | newMultiArray type dimensions =>
    exact ordinary ⟨rfl, rfl⟩ (gives_after fun _ => pushes_gives _ _)
  | throw => exact throws_gives site
  | checkCast name =>
    exact ordinary ⟨rfl, rfl⟩ (gives_after fun _ => gives_after fun _ =>
      gives_pure (isPlain_single trivial))
  | monitorEnter | monitorExit =>
    exact ordinary ⟨rfl, rfl⟩ (gives_after fun _ => gives_pure (isPlain_single trivial))

end Translation

end Bytescript
