import Bytescript.Translation.Structure
import Mathlib.Data.List.Chain

/-!
# What grouping handlers keeps

Handlers are tried in order, and neighbours with the same target are tested together.  A group
catches what one of its handlers catches, so whatever is caught, the first group that catches it
leads to the target of the first handler that does.  No more can be merged: neighbouring groups have
different targets.  A group that does not catch everything names at least one class.
-/

set_option autoImplicit false

namespace Bytescript.Translation

open Bytescript.Flow

variable {caught : ClassName → Bool} {handler : Handler} {handlers : List Handler}

/-- Whether a handler catches everything, or a class that is caught. -/
def handlerMeets (caught : ClassName → Bool) (handler : Handler) : Bool :=
  handler.catchType.all caught

namespace HandlerGroup

variable {group : HandlerGroup}

/-- Whether a group catches everything, or names a class that is caught. -/
def meets (caught : ClassName → Bool) (group : HandlerGroup) : Bool :=
  match group.classes with
  | none => true
  | some classes => classes.any caught

theorem meets_ofHandler : (ofHandler handler).meets caught = handlerMeets caught handler := by
  rw [meets, ofHandler, handlerMeets]
  cases handler.catchType with
  | none => rfl
  | some name => simp

theorem meets_add : (group.add handler).meets caught =
    (handlerMeets caught handler || group.meets caught) := by
  rw [meets, add, handlerMeets, meets]
  cases handler.catchType with
  | none => rfl
  | some name =>
    cases group.classes with
    | none => simp
    | some names => simp

/-! ## One more handler -/

/-- What one more handler in front does to the groups: it joins the first one if that has the same
target, and is a group of its own otherwise. -/
theorem ofHandlers_cons_cases (handler : Handler) (handlers : List Handler) :
    (∃ group groups, ofHandlers handlers = group :: groups ∧ group.target = handler.target ∧
      ofHandlers (handler :: handlers) = group.add handler :: groups) ∨
    ((∀ group ∈ (ofHandlers handlers).head?, group.target ≠ handler.target) ∧
      ofHandlers (handler :: handlers) = ofHandler handler :: ofHandlers handlers) := by
  rw [ofHandlers]
  split
  next none => exact .inr ⟨by simp [none], by rw [none]⟩
  next group groups some =>
    split
    next same => exact .inl ⟨group, groups, some, same, rfl⟩
    next different => exact .inr ⟨by simpa [some] using different, by rw [some]⟩

/-- The first group that catches something has the target of the first handler that does. -/
theorem find?_meets_ofHandlers (caught : ClassName → Bool) (handlers : List Handler) :
    ((ofHandlers handlers).find? (meets caught)).map HandlerGroup.target =
      (handlers.find? (handlerMeets caught)).map Handler.target := by
  induction handlers with
  | nil => rfl
  | cons handler rest ih =>
    rcases ofHandlers_cons_cases handler rest with ⟨group, groups, rest, same, joins⟩ | ⟨_, apart⟩
    · rw [rest, List.find?_cons] at ih
      rw [joins, List.find?_cons, List.find?_cons, meets_add]
      cases handlerMeets caught handler with
      | true => exact congrArg Option.some same
      | false =>
        rw [Bool.false_or]
        refine Eq.trans ?_ ih
        split
        · rfl
        · rfl
    · rw [apart, List.find?_cons, List.find?_cons, meets_ofHandler]
      split
      · rfl
      · exact ih

/-- Something is caught by a group exactly if it is caught by a handler. -/
theorem exists_meets_ofHandlers_iff (caught : ClassName → Bool) (handlers : List Handler) :
    (∃ group ∈ ofHandlers handlers, group.meets caught = true) ↔
      ∃ handler ∈ handlers, handlerMeets caught handler = true := by
  rw [← List.find?_isSome, ← List.find?_isSome, ← Option.isSome_map (f := HandlerGroup.target),
    find?_meets_ofHandlers, Option.isSome_map]

/-- Neighbouring groups have different targets. -/
theorem isChain_ofHandlers (handlers : List Handler) :
    (ofHandlers handlers).IsChain fun one next => one.target ≠ next.target := by
  induction handlers with
  | nil => exact .nil
  | cons handler rest ih =>
    rcases ofHandlers_cons_cases handler rest with ⟨group, groups, rest, _, joins⟩ | ⟨other, apart⟩
    · rw [rest, List.isChain_cons] at ih
      rw [joins, List.isChain_cons]
      exact ih
    · rw [apart, List.isChain_cons]
      exact ⟨fun group first => Ne.symm (other group first), ih⟩

/-- What holds of the groups of single handlers, and still holds when a handler joins, holds of all
groups. -/
theorem forall_ofHandlers {holds : HandlerGroup → Prop}
    (single : ∀ handler ∈ handlers, holds (ofHandler handler))
    (joined : ∀ handler ∈ handlers, ∀ group, group.target = handler.target → holds group →
      holds (group.add handler)) : ∀ group ∈ ofHandlers handlers, holds group := by
  induction handlers with
  | nil => simp [ofHandlers]
  | cons handler rest ih =>
    obtain ⟨here, later⟩ := List.forall_mem_cons.mp single
    obtain ⟨joins, later'⟩ := List.forall_mem_cons.mp joined
    have behind := ih later later'
    rcases ofHandlers_cons_cases handler rest with ⟨group, groups, same, target, first⟩ | ⟨_, apart⟩
    · rw [same] at behind
      obtain ⟨next, others⟩ := List.forall_mem_cons.mp behind
      rw [first]
      exact List.forall_mem_cons.mpr ⟨joins group target next, others⟩
    · rw [apart]
      exact List.forall_mem_cons.mpr ⟨here, behind⟩

/-- A group that does not catch everything names a class. -/
theorem classes_ofHandlers_ne (handlers : List Handler) :
    ∀ group ∈ ofHandlers handlers, group.classes ≠ some [] := by
  refine forall_ofHandlers (fun handler _ => ?_) fun handler _ group _ _ => ?_
  · rw [ofHandler]
    cases handler.catchType with
    | none => simp
    | some name => simp
  · rw [add]
    cases handler.catchType with
    | none => simp
    | some name =>
      cases group.classes with
      | none => simp
      | some names => simp

/-- A group leads where one of the handlers does. -/
theorem exists_handler_of_mem (member : group ∈ ofHandlers handlers) :
    ∃ handler ∈ handlers, handler.target = group.target := by
  have all : ∀ group ∈ ofHandlers handlers, ∃ handler ∈ handlers, handler.target = group.target :=
    forall_ofHandlers (fun handler listed => ⟨handler, listed, rfl⟩) fun _ _ _ _ before => before
  exact all group member

/-- **Grouping handlers keeps what is tried first.**  Whatever is caught, the first group that
catches it leads where the first handler that catches it does, and there is such a group exactly if
there is such a handler.  Handlers are merged as far as their order allows, and no group is left
without anything to catch. -/
theorem ofHandlers_keepsFirst (caught : ClassName → Bool) (handlers : List Handler) :
    ((ofHandlers handlers).find? (meets caught)).map HandlerGroup.target =
        (handlers.find? (handlerMeets caught)).map Handler.target ∧
      ((∃ group ∈ ofHandlers handlers, group.meets caught = true) ↔
        ∃ handler ∈ handlers, handlerMeets caught handler = true) ∧
      ((ofHandlers handlers).IsChain fun one next => one.target ≠ next.target) ∧
      ∀ group ∈ ofHandlers handlers, group.classes ≠ some [] :=
  ⟨find?_meets_ofHandlers caught handlers, exists_meets_ofHandlers_iff caught handlers,
    isChain_ofHandlers handlers, classes_ofHandlers_ne handlers⟩

end HandlerGroup

end Bytescript.Translation
