import Bytescript.Proofs.Execution.Moves
import Mathlib.Order.WellFounded

/-!
# Runs that follow a walk

The code of a method follows a walk through its flow if the machine comes again and again to
states with the same history and the same end as the walk, block by block, and if it is proper all
the time.  That follows from a relation between walks and states that is kept up whenever the walk
goes on by one block and the machine by at least one step.
-/

set_option autoImplicit false

namespace Bytescript.Execution

open Bytescript.Flow Script Translation

variable {Thrown : Type} {oracle : Oracle Thrown}

/-- Running code goes along with a walk: the walk always knows where to go on, the machine comes
to states with the histories and the end of the walk, and no part of the code runs on into code
that is not meant to come next. -/
structure Follows (oracle : Oracle Thrown) (body : Body) (flow : ControlFlow)
    (codes : Codes) : Prop where
  found : ∀ count, (walkFor flow codes oracle count).position ≠ .lost
  proper : ∀ count, (runFor oracle body count).Proper
  meets : ∃ time : ℕ → ℕ, StrictMono time ∧ ∀ count,
    (runFor oracle body (time count)).history = (walkFor flow codes oracle count).history ∧
      (runFor oracle body (time count)).ending = (walkFor flow codes oracle count).position.ending

/-! ## Simulation -/

section Simulation

variable {α : Type} {next : α → α} {related : α → State Thrown → Prop} {start : α}
  {first : State Thrown}

/-- A relation that is kept up step by step holds at growing times, with proper states between. -/
theorem exists_times (begins : ∃ state, Reaches oracle first state ∧ related start state)
    (goes : ∀ here state, related here state →
      ∃ after, Advances oracle state after ∧ related (next here) after) :
    ∃ time : ℕ → ℕ, StrictMono time ∧
      (∀ count, related (next^[count] start) ((State.step oracle)^[time count] first)) ∧
      ∀ count, ((State.step oracle)^[count] first).Proper := by
  obtain ⟨_, reaches, begins⟩ := begins
  obtain ⟨initial, rfl, early⟩ := exists_iterate_of_reaches reaches
  have further (count moment : ℕ)
      (here : related (next^[count] start) ((State.step oracle)^[moment] first)) :
      ∃ later, moment < later ∧
        related (next^[count + 1] start) ((State.step oracle)^[later] first) ∧
        ∀ between, moment ≤ between → between < later →
          ((State.step oracle)^[between] first).Proper := by
    obtain ⟨after, advances, there⟩ := goes _ _ here
    obtain ⟨steps, positive, rfl, proper⟩ := exists_iterate_of_advances advances
    refine ⟨steps + moment, by omega, ?_, fun between low high => ?_⟩
    · rw [Function.iterate_succ_apply', Function.iterate_add_apply]
      exact there
    · have between_eq : between = (between - moment) + moment := by omega
      rw [between_eq, Function.iterate_add_apply]
      exact proper _ (by omega)
  choose later behind holds proper using further
  -- The times are found one after the other, each from what holds at the one before.
  let times : (count : ℕ) →
      {moment // related (next^[count] start) ((State.step oracle)^[moment] first)} :=
    Nat.rec ⟨initial, begins⟩ fun count moment =>
      ⟨later count moment.1 moment.2, holds count moment.1 moment.2⟩
  have grows : StrictMono fun count => (times count).1 :=
    strictMono_nat_of_lt_succ fun count => behind count _ _
  refine ⟨fun count => (times count).1, grows, fun count => (times count).2, fun moment => ?_⟩
  have bounded (count : ℕ) :
      ∀ moment < (times count).1, ((State.step oracle)^[moment] first).Proper := by
    induction count with
    | zero => exact early
    | succ count ih =>
      intro moment less
      rcases lt_or_ge moment (times count).1 with before | after
      · exact ih moment before
      · exact proper count _ _ moment after less
  exact bounded (moment + 1) moment ((Nat.lt_succ_self _).trans_le (grows.le_apply))

end Simulation

/-- How a walk and the machine are related: by what has happened, and once the walk has ended, by
how.  Where the machine is when the walk is at a block depends on the form of the code. -/
def Related (oracle : Oracle Thrown) (inside : ℕ → State Thrown → Prop) (walk : Walk Thrown)
    (state : State Thrown) : Prop :=
  state.history = walk.history ∧ state.ending = walk.position.ending ∧
    match walk.position with
    | .inside block => inside block state
    | .ended _ => Moves oracle state state
    | .lost => False

/-- Code follows the walk if the machine gets from block to block as the walk does. -/
theorem follows_of_related {body : Body} {flow : ControlFlow} {codes : Codes}
    (inside : ℕ → State Thrown → Prop)
    (begins : ∃ state, Reaches oracle (begin body) state ∧
      Related oracle inside ⟨.inside ControlFlow.entry, []⟩ state)
    (goes : ∀ block state, inside block state → ∃ after, Advances oracle state after ∧
      Related oracle inside (visitBlock flow codes oracle block state.history) after) :
    Follows oracle body flow codes := by
  have step (walk : Walk Thrown) (state : State Thrown)
      (related : Related oracle inside walk state) :
      ∃ after, Advances oracle state after ∧
        Related oracle inside (walk.step flow codes oracle) after := by
    obtain ⟨position, history⟩ := walk
    obtain ⟨rfl, ending, related⟩ := related
    cases position with
    | inside block => exact goes block state related
    | ended how => exact ⟨state, .single related, rfl, ending, related⟩
    | lost => exact related.elim
  obtain ⟨time, grows, meets, proper⟩ := exists_times begins step
  refine ⟨fun count lost => ?_, proper, time, grows,
    fun count => ⟨(meets count).1, (meets count).2.1⟩⟩
  have impossible := (meets count).2.2
  rw [show ((Walk.step flow codes oracle)^[count] ⟨.inside ControlFlow.entry, []⟩).position = .lost
    from lost] at impossible
  exact impossible

end Bytescript.Execution
