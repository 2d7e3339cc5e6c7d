import Bytescript.Proofs.Execution.Moves
import Bytescript.Proofs.Failure
import Bytescript.Proofs.Translation.Grouping

/-!
# Groups of handlers

Neighbouring handlers with the same target are tested together, and nothing is tested after a
group that catches everything.  The first group that catches an exception has the target of the
first handler that does, so a recovery gives the exception to the right block, or passes it on if
no handler catches it.
-/

set_option autoImplicit false

namespace Bytescript.Translation

open Bytescript.Flow Script Execution

variable {Thrown : Type} {oracle : Oracle Thrown} {exception : Thrown} {handlers : List Handler}
  {groups : List HandlerGroup} {jump : Jump} {recovery : Recovery}

namespace HandlerGroup

/-- Whether one of the handlers of a group catches an exception. -/
def catches (oracle : Oracle Thrown) (exception : Thrown) (group : HandlerGroup) : Bool :=
  match group.classes with
  | none => true
  | some classes => classes.any (oracle.isInstance exception)

theorem catches_eq_meets (oracle : Oracle Thrown) (exception : Thrown) :
    catches oracle exception = meets (oracle.isInstance exception) := by
  funext ⟨target, classes⟩
  cases classes with
  | none => rfl
  | some classes => rfl

theorem oracle_catches_eq_handlerMeets (oracle : Oracle Thrown) (exception : Thrown) :
    oracle.catches exception = handlerMeets (oracle.isInstance exception) := by
  funext handler
  rw [Oracle.catches, handlerMeets]
  cases handler.catchType with
  | none => rfl
  | some name => rfl

/-- The first group that catches an exception has the target of the first handler that does. -/
theorem find?_ofHandlers (oracle : Oracle Thrown) (exception : Thrown) (handlers : List Handler) :
    ((ofHandlers handlers).find? (catches oracle exception)).map HandlerGroup.target =
      (handlers.find? (oracle.catches exception)).map Handler.target := by
  rw [catches_eq_meets, oracle_catches_eq_handlerMeets]
  exact find?_meets_ofHandlers (oracle.isInstance exception) handlers

theorem find?_ofHandlers_some {handler : Handler}
    (found : handlers.find? (oracle.catches exception) = some handler) :
    ∃ group, (ofHandlers handlers).find? (catches oracle exception) = some group ∧
      group.target = handler.target := by
  have same := find?_ofHandlers oracle exception handlers
  rw [found] at same
  exact Option.map_eq_some_iff.mp same

theorem find?_ofHandlers_none (missing : handlers.find? (oracle.catches exception) = none) :
    (ofHandlers handlers).find? (catches oracle exception) = none := by
  have same := find?_ofHandlers oracle exception handlers
  rw [missing] at same
  exact Option.map_eq_none_iff.mp same

end HandlerGroup

open HandlerGroup

/-! ## The code of groups -/

theorem exists_recoveryOf (jump : Jump) (groups : List HandlerGroup)
    (jumps : ∀ group ∈ groups, ∃ body, jump group.target = .ok body) :
    ∃ recovery, recoveryOf jump groups = .ok recovery := by
  induction groups with
  | nil => exact ⟨.rethrow, rfl⟩
  | cons group rest ih =>
    obtain ⟨body, here⟩ := jumps group List.mem_cons_self
    obtain ⟨otherwise, there⟩ := ih fun other member => jumps other (.tail _ member)
    obtain ⟨target, classes⟩ := group
    cases classes with
    | none => exact ⟨.always body, bind_eq_ok.mpr ⟨body, here, rfl⟩⟩
    | some classes =>
      exact ⟨.whenAny classes body otherwise,
        bind_eq_ok.mpr ⟨body, here, bind_eq_ok.mpr ⟨otherwise, there, rfl⟩⟩⟩

/-- A recovery inside of nested code jumps to the first group that catches the exception, or
passes it on. -/
theorem run_recoveryOf (oracle : Oracle Thrown) (exception : Thrown)
    (made : recoveryOf jump groups = .ok recovery) (frames : List (Frame Thrown)) (next : ℕ)
    (history : History Thrown) :
    match groups.find? (catches oracle exception) with
    | some group => ∃ body, jump group.target = .ok body ∧
        Reaches oracle ⟨.recover exception recovery, frames, next, history⟩
          ⟨.run body, .caught :: frames, next, .bind exception :: history⟩
    | none => Reaches oracle ⟨.recover exception recovery, frames, next, history⟩
        ⟨.complete (.throws exception), frames, next, history⟩ := by
  fun_induction recoveryOf jump groups generalizing recovery with
  | case1 =>
    cases made
    exact .single ⟨trivial, rfl⟩
  | case2 target rest =>
    obtain ⟨body, here, made⟩ := bind_eq_ok.mp made
    cases made
    exact ⟨body, here, .single ⟨trivial, rfl⟩⟩
  | case3 target classes rest ih =>
    obtain ⟨body, here, made⟩ := bind_eq_ok.mp made
    obtain ⟨otherwise, there, made⟩ := bind_eq_ok.mp made
    cases made
    rw [List.find?_cons, show catches oracle exception ⟨target, some classes⟩ =
      classes.any (oracle.isInstance exception) from rfl]
    cases caught : classes.any (oracle.isInstance exception) with
    | true =>
      refine ⟨body, here, .single ⟨trivial, ?_⟩⟩
      simp only [State.step, State.stepRecover, caught, if_true, State.bind]
    | false =>
      have skips : Moves oracle ⟨.recover exception (.whenAny classes body otherwise), frames,
          next, history⟩ ⟨.recover exception otherwise, frames, next, history⟩ := by
        refine ⟨trivial, ?_⟩
        simp only [State.step, State.stepRecover, caught, Bool.false_eq_true, if_false]
      have later := ih there
      cases found : rest.find? (catches oracle exception) with
      | some group =>
        rw [found] at later
        obtain ⟨body, jumps, reaches⟩ := later
        exact ⟨body, jumps, reaches.head skips⟩
      | none =>
        rw [found] at later
        exact later.head skips

/-- A recovery outside of a dispatch jumps to the first group that catches the exception, or
execution goes on behind it. -/
theorem test_recoveryOf (oracle : Oracle Thrown) (exception : Thrown)
    (made : recoveryOf jump groups = .ok recovery) (frames : List (Frame Thrown)) (next : ℕ)
    (history : History Thrown) :
    match groups.find? (catches oracle exception) with
    | some group => ∃ body behind, jump group.target = .ok body ∧
        Reaches oracle ⟨.test exception recovery, frames, next, history⟩
          ⟨.run body, .tests exception behind :: frames, next, .bind exception :: history⟩
    | none => Reaches oracle ⟨.test exception recovery, frames, next, history⟩
        ⟨.complete .normal, frames, next, history⟩ := by
  fun_induction recoveryOf jump groups generalizing recovery with
  | case1 =>
    cases made
    exact .single ⟨trivial, rfl⟩
  | case2 target rest =>
    obtain ⟨body, here, made⟩ := bind_eq_ok.mp made
    cases made
    exact ⟨body, _, here, .single ⟨trivial, rfl⟩⟩
  | case3 target classes rest ih =>
    obtain ⟨body, here, made⟩ := bind_eq_ok.mp made
    obtain ⟨otherwise, there, made⟩ := bind_eq_ok.mp made
    cases made
    rw [List.find?_cons, show catches oracle exception ⟨target, some classes⟩ =
      classes.any (oracle.isInstance exception) from rfl]
    cases caught : classes.any (oracle.isInstance exception) with
    | true =>
      refine ⟨body, otherwise, here, .single ⟨trivial, ?_⟩⟩
      simp only [State.step, State.stepTest, caught, if_true, State.bind]
    | false =>
      have skips : Moves oracle ⟨.test exception (.whenAny classes body otherwise), frames,
          next, history⟩ ⟨.test exception otherwise, frames, next, history⟩ := by
        refine ⟨trivial, ?_⟩
        simp only [State.step, State.stepTest, caught, Bool.false_eq_true, if_false]
      have later := ih there
      cases found : rest.find? (catches oracle exception) with
      | some group =>
        rw [found] at later
        obtain ⟨body, behind, jumps, reaches⟩ := later
        exact ⟨body, behind, jumps, reaches.head skips⟩
      | none =>
        rw [found] at later
        exact later.head skips

end Bytescript.Translation
