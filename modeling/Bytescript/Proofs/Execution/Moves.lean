import Bytescript.Proofs.Execution.Machine

/-!
# Steps of the machine

Steps are only taken from proper states, so whatever is reached by them was reached without running
on into code that is not meant to come next.  A part that does not complete normally leaves all the
frames that have nothing to do with the way it completes.
-/

set_option autoImplicit false

namespace Bytescript.Execution

open Script

variable {Thrown : Type} {oracle : Oracle Thrown} {one two : State Thrown}

/-- A step from a proper state. -/
def Moves (oracle : Oracle Thrown) (one two : State Thrown) : Prop :=
  one.Proper ∧ one.step oracle = two

/-- Some steps from proper states, perhaps none. -/
abbrev Reaches (oracle : Oracle Thrown) : State Thrown → State Thrown → Prop :=
  Relation.ReflTransGen (Moves oracle)

/-- At least one step, and all of them from proper states. -/
abbrev Advances (oracle : Oracle Thrown) : State Thrown → State Thrown → Prop :=
  Relation.TransGen (Moves oracle)

/-! ## Counting steps -/

theorem exists_iterate_of_reaches (reaches : Reaches oracle one two) :
    ∃ count, (State.step oracle)^[count] one = two ∧
      ∀ earlier < count, ((State.step oracle)^[earlier] one).Proper := by
  induction reaches with
  | refl => exact ⟨0, rfl, fun _ none => absurd none (Nat.not_lt_zero _)⟩
  | tail _ moves ih =>
    obtain ⟨count, rfl, proper⟩ := ih
    refine ⟨count + 1, by rw [Function.iterate_succ_apply', moves.2], fun earlier less => ?_⟩
    rcases Nat.lt_succ_iff_lt_or_eq.mp less with less | rfl
    · exact proper earlier less
    · exact moves.1

theorem exists_iterate_of_advances (advances : Advances oracle one two) :
    ∃ count, 0 < count ∧ (State.step oracle)^[count] one = two ∧
      ∀ earlier < count, ((State.step oracle)^[earlier] one).Proper := by
  obtain ⟨middle, reaches, moves⟩ := Relation.TransGen.tail'_iff.mp advances
  obtain ⟨count, rfl, proper⟩ := exists_iterate_of_reaches reaches
  refine ⟨count + 1, Nat.succ_pos _, by rw [Function.iterate_succ_apply', moves.2], ?_⟩
  intro earlier less
  rcases Nat.lt_succ_iff_lt_or_eq.mp less with less | rfl
  · exact proper earlier less
  · exact moves.1

/-! ## Blocks -/

section Blocks

variable {block next : ℕ} {statements : List Statement} {recovery : Recovery} {exit : Skeleton}
  {frames : List (Frame Thrown)} {history : History Thrown}

theorem andThen_moves (first second : Skeleton) :
    Moves oracle ⟨.run (.andThen first second), frames, next, history⟩
      ⟨.run first, .next second :: frames, next, history⟩ :=
  ⟨trivial, rfl⟩

/-- Behind the statements of a block that complete, its exit is next. -/
theorem block_completes
    (outcome : oracle.outcome statements (.visit block :: history) = none) :
    Advances oracle ⟨.run (.andThen (.block block statements recovery) exit), frames, next, history⟩
      ⟨.run exit, frames, next, .visit block :: history⟩ := by
  have completes : Moves oracle
      ⟨.run (.block block statements recovery), .next exit :: frames, next, history⟩
      ⟨.complete .normal, .next exit :: frames, next, .visit block :: history⟩ := by
    refine ⟨trivial, ?_⟩
    simp only [State.step, State.stepRun, outcome]
  have leaves : Moves oracle
      ⟨.complete .normal, .next exit :: frames, next, .visit block :: history⟩
      ⟨.run exit, frames, next, .visit block :: history⟩ := ⟨trivial, rfl⟩
  exact .head (andThen_moves _ _) (.head completes (.single leaves))

/-- An exception of the statements of a block goes to its recovery. -/
theorem block_fails {exception : Thrown}
    (outcome : oracle.outcome statements (.visit block :: history) = some exception) :
    Advances oracle ⟨.run (.andThen (.block block statements recovery) exit), frames, next, history⟩
      ⟨.recover exception recovery, .next exit :: frames, next, .visit block :: history⟩ := by
  have fails : Moves oracle
      ⟨.run (.block block statements recovery), .next exit :: frames, next, history⟩
      ⟨.recover exception recovery, .next exit :: frames, next, .visit block :: history⟩ := by
    refine ⟨trivial, ?_⟩
    simp only [State.step, State.stepRun, outcome]
  exact .head (andThen_moves _ _) (.single fails)

end Blocks

/-! ## Leaving frames -/

/-- Completing in this way inside of the frame leaves it. -/
def Frame.Passes (how : Completion Thrown) (frame : Frame Thrown) : Prop :=
  how ≠ .normal ∧ ∀ (state : State Thrown) (frames : List (Frame Thrown)),
    state.stepComplete frame frames how = { state with frames }

theorem reaches_pass (oracle : Oracle Thrown) (how : Completion Thrown)
    (inner outer : List (Frame Thrown)) (next : ℕ) (history : History Thrown)
    (passes : ∀ frame ∈ inner, frame.Passes how) :
    Reaches oracle ⟨.complete how, inner ++ outer, next, history⟩
      ⟨.complete how, outer, next, history⟩ := by
  induction inner with
  | nil => exact .refl
  | cons frame inner ih =>
    obtain ⟨⟨other, pass⟩, passes⟩ := List.forall_mem_cons.mp passes
    refine .head ⟨?_, pass _ _⟩ (ih passes)
    cases how with
    | normal => exact absurd rfl other
    | breaks | continues | leaves | throws => trivial

/-- A frame that neither is the loop of a dispatch nor a loop inside of nested code. -/
def Frame.NoLoop : Frame Thrown → Prop
  | .loop _ _ | .forever _ => False
  | _ => True

theorem Frame.NoLoop.passes {frame : Frame Thrown} (noLoop : frame.NoLoop) :
    frame.Passes (.continues none) := by
  refine ⟨by simp, fun state frames => ?_⟩
  cases frame with
  | loop | forever => exact noLoop.elim
  | _ => rfl

theorem passes_throws (exception : Thrown) {frame : Frame Thrown}
    (uncaught : ∀ dispatch, frame ≠ .guarded dispatch) : frame.Passes (.throws exception) := by
  refine ⟨by simp, fun state frames => ?_⟩
  cases frame with
  | guarded dispatch => exact absurd rfl (uncaught dispatch)
  | _ => rfl

theorem passes_leaves (value : Option Variable) (frame : Frame Thrown) :
    frame.Passes (.leaves value) :=
  ⟨by simp, fun _ _ => rfl⟩

end Bytescript.Execution
