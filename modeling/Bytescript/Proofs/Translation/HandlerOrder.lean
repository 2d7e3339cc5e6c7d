import Bytescript.Proofs.Flow.Build
import Bytescript.Proofs.Translation.Grouping
import Mathlib.Data.List.Destutter

/-!
# Handlers that come back

Handlers are grouped with their neighbours only, so a target has one group for each time that the
handlers come back to it.  For the graph it is a single edge all the same.  The target has its code
inside of the block that is handled if that edge is the only one that goes forward to it, and then
the code stands there once for each of its groups.
-/

set_option autoImplicit false

namespace Bytescript.Translation

open Bytescript.Flow

variable {flow : ControlFlow} {block target : Nat} {handlers : List Handler} {targets : List Nat}

/-! ## Repetitions in a row -/

theorem destutter_cons_cons (first second : Nat) :
    (first :: second :: targets).destutter (· ≠ ·) =
      if first = second then (second :: targets).destutter (· ≠ ·)
      else first :: (second :: targets).destutter (· ≠ ·) := by
  rw [List.destutter_cons_cons, List.destutter_cons']
  split
  next => rfl
  next same =>
    rw [not_not] at same
    rw [if_pos same, same]

theorem mem_destutter : target ∈ targets.destutter (· ≠ ·) ↔ target ∈ targets := by
  refine ⟨fun member => (List.destutter_sublist _ targets).subset member, fun member => ?_⟩
  induction targets with
  | nil => cases member
  | cons first rest ih =>
    cases rest with
    | nil => exact member
    | cons second rest =>
      rw [destutter_cons_cons]
      split
      next same =>
        rcases List.mem_cons.mp member with rfl | later
        · exact ih (same ▸ List.mem_cons_self)
        · exact ih later
      next =>
        rcases List.mem_cons.mp member with rfl | later
        · exact List.mem_cons_self
        · exact .tail _ (ih later)

/-- Without its repetitions in a row, a list still repeats what it comes back to after something
else. -/
theorem pair_sublist_destutter : [target, target].Sublist (targets.destutter (· ≠ ·)) ↔
    ∃ other, other ≠ target ∧ [target, other, target].Sublist targets := by
  induction targets with
  | nil => simp
  | cons first rest ih =>
    cases rest with
    | nil => simp [List.destutter]
    | cons second rest =>
      rw [destutter_cons_cons]
      split
      next same =>
        subst same
        rw [ih]
        refine exists_congr fun other => and_congr_right fun different => ?_
        refine ⟨fun here => here.trans (List.sublist_cons_self _ _), fun here => ?_⟩
        rcases List.cons_sublist_cons'.mp here with later | ⟨rfl, later⟩
        · exact later
        · rcases List.cons_sublist_cons'.mp later with later | ⟨same, _⟩
          · exact later.cons_cons _
          · exact absurd same different
      next different =>
        constructor
        · intro twice
          rcases List.cons_sublist_cons'.mp twice with later | ⟨rfl, later⟩
          · obtain ⟨other, apart, here⟩ := ih.mp later
            exact ⟨other, apart, here.cons _⟩
          · have member := mem_destutter.mp (List.singleton_sublist.mp later)
            have behind := (List.mem_cons.mp member).resolve_left different
            exact ⟨second, Ne.symm different,
              (List.singleton_sublist.mpr behind).cons_cons second |>.cons_cons target⟩
        · rintro ⟨other, apart, here⟩
          rcases List.cons_sublist_cons'.mp here with later | ⟨rfl, later⟩
          · exact (ih.mpr ⟨other, apart, later⟩).cons _
          · have member := later.subset (.tail _ List.mem_cons_self)
            exact (List.singleton_sublist.mpr (mem_destutter.mpr member)).cons_cons target

/-! ## Groups -/

/-- The targets of handlers as these are tried.  Nothing is tried after a handler that catches
everything. -/
def triedTargets : List Handler → List Nat
  | [] => []
  | ⟨none, target⟩ :: _ => [target]
  | ⟨some _, target⟩ :: rest => target :: triedTargets rest

/-- The targets of groups of handlers as these are tested. -/
def testedTargets : List HandlerGroup → List Nat
  | [] => []
  | ⟨target, none⟩ :: _ => [target]
  | ⟨target, some _⟩ :: rest => target :: testedTargets rest

theorem exists_ofHandlers_cons (handler : Handler) (rest : List Handler) :
    ∃ group groups, HandlerGroup.ofHandlers (handler :: rest) = group :: groups ∧
      group.target = handler.target := by
  rcases HandlerGroup.ofHandlers_cons_cases handler rest with ⟨_, _, _, same, joins⟩ | ⟨_, apart⟩
  · exact ⟨_, _, joins, same⟩
  · exact ⟨_, _, apart, rfl⟩

theorem exists_triedTargets_cons (handler : Handler) (rest : List Handler) :
    ∃ more, triedTargets (handler :: rest) = handler.target :: more := by
  obtain ⟨_ | name, target⟩ := handler
  · exact ⟨_, rfl⟩
  · exact ⟨_, rfl⟩

/-- The groups of handlers are tested as the handlers are tried, without repetitions in a row. -/
theorem testedTargets_ofHandlers :
    testedTargets (HandlerGroup.ofHandlers handlers) =
      (triedTargets handlers).destutter (· ≠ ·) := by
  induction handlers with
  | nil => rfl
  | cons handler rest ih =>
    obtain ⟨catchType, target⟩ := handler
    cases rest with
    | nil =>
      cases catchType with
      | none => rfl
      | some name => rfl
    | cons next rest =>
      obtain ⟨⟨first, classes⟩, groups, grouped, rfl⟩ := exists_ofHandlers_cons next rest
      obtain ⟨more, tried⟩ := exists_triedTargets_cons next rest
      rw [grouped] at ih
      rw [HandlerGroup.ofHandlers, grouped]
      cases catchType with
      | none =>
        dsimp only
        split
        next same => exact congrArg ([·]) same
        next => rfl
      | some name =>
        have both : (triedTargets (⟨some name, target⟩ :: next :: rest)).destutter (· ≠ ·) =
            if target = next.target then testedTargets (⟨next.target, classes⟩ :: groups)
            else target :: testedTargets (⟨next.target, classes⟩ :: groups) := by
          rw [ih, triedTargets, tried, destutter_cons_cons]
        rw [both]
        dsimp only
        split
        next same =>
          rw [if_pos same.symm]
          cases classes with
          | none => rfl
          | some classes => rfl
        next different => exact (if_neg (Ne.symm different)).symm

theorem exists_handler_of_mem_triedTargets (member : target ∈ triedTargets handlers) :
    ∃ handler ∈ handlers, handler.target = target := by
  fun_induction triedTargets handlers with
  | case1 => cases member
  | case2 other rest =>
    rw [List.mem_singleton.mp member]
    exact ⟨_, List.mem_cons_self, rfl⟩
  | case3 name other rest ih =>
    rcases List.mem_cons.mp member with rfl | later
    · exact ⟨_, List.mem_cons_self, rfl⟩
    · obtain ⟨handler, listed, same⟩ := ih later
      exact ⟨handler, .tail _ listed, same⟩

/-! ## Handlers inside of the code of a block -/

/-- Which blocks stand inside of the code of the block that goes on with them. -/
def standsInside (flow : ControlFlow) (block target : Nat) : Bool :=
  !flow.shape.isBackward block target && !flow.shape.isMerge target

theorem standsInside_iff : standsInside flow block target = true ↔
    flow.shape.isBackward block target = false ∧ flow.shape.isMerge target = false := by
  rw [standsInside, Bool.and_eq_true, Bool.not_eq_true', Bool.not_eq_true']

/-- The targets of handlers that stand inside of the code of a block, each as often as it does. -/
def handlersInside (flow : ControlFlow) (block : Nat) : List Nat :=
  (testedTargets (HandlerGroup.ofHandlers (flow.covering block))).filter (standsInside flow block)

theorem mem_handlersInside (member : target ∈ handlersInside flow block) :
    (∃ handler ∈ flow.covering block, handler.target = target) ∧
      standsInside flow block target = true := by
  obtain ⟨tested, inside⟩ := List.mem_filter.mp member
  rw [testedTargets_ofHandlers, mem_destutter] at tested
  exact ⟨exists_handler_of_mem_triedTargets tested, inside⟩

/-- Handlers of a block come back to a target inside of its code, after one with another target. -/
def ComesBack (flow : ControlFlow) (block : Nat) : Prop :=
  ∃ target other, standsInside flow block target = true ∧ other ≠ target ∧
    [target, other, target].Sublist (triedTargets (flow.covering block))

theorem nodup_handlersInside_iff : (handlersInside flow block).Nodup ↔ ¬ ComesBack flow block := by
  rw [handlersInside, testedTargets_ofHandlers, List.nodup_iff_sublist, ← not_exists, not_iff_not]
  apply exists_congr
  intro target
  constructor
  · intro twice
    have inside := (List.mem_filter.mp (twice.subset List.mem_cons_self)).2
    obtain ⟨other, different, here⟩ :=
      pair_sublist_destutter.mp (twice.trans List.filter_sublist)
    exact ⟨other, inside, different, here⟩
  · rintro ⟨other, inside, different, here⟩
    have twice := pair_sublist_destutter.mpr ⟨other, different, here⟩
    replace twice := twice.filter (standsInside flow block)
    rwa [List.filter_cons_of_pos inside, List.filter_cons_of_pos inside, List.filter_nil] at twice

end Bytescript.Translation
