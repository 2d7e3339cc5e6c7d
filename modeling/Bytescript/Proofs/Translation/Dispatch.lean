import Bytescript.Proofs.Execution.Following
import Bytescript.Proofs.Translation.Waiting
import Bytescript.Proofs.Translation.Exit
import Bytescript.Proofs.Translation.Handler

/-!
# Blocks side by side follow the flow

A dispatch finds its next block by the offset at which that starts, and the clause that catches
exceptions finds the handlers of a block in the same way, since a block never changes the variable
that names it before it is left.  Every jump begins the loop again with the next block, whatever
stands around it.
-/

set_option autoImplicit false

namespace Bytescript.Translation

open Bytescript.Flow Script Execution

variable {Thrown : Type} {oracle : Oracle Thrown} {flow : ControlFlow} {codes : Codes}
  {block : Nat}

/-! ## The cases -/

theorem mem_reachableBlocks (wellBuilt : flow.WellBuilt) :
    block ∈ reachableBlocks flow ↔ flow.shape.graph.Reachable block := by
  rw [reachableBlocks, List.mem_filter, wellBuilt.shape, Analysis.isReachable_iff]
  refine and_iff_right_of_imp fun reachable => List.mem_range.mpr ?_
  exact reachable.lt_size.trans_eq wellBuilt.size

theorem exists_dispatchRecovery (block : Nat) :
    ∃ recovery, dispatchRecovery flow block = .ok recovery := by
  obtain ⟨recovery, made⟩ := exists_recoveryOf (dispatchJump flow)
    (HandlerGroup.ofHandlers (flow.covering block)) fun _ _ => ⟨_, rfl⟩
  exact ⟨(flow.start block, recovery), bind_eq_ok.mpr ⟨recovery, made, rfl⟩⟩

/-- A dispatch can be made of all blocks that can be reached. -/
theorem exists_dispatchedCode (wellBuilt : flow.WellBuilt) (translated : Translated flow codes) :
    ∃ dispatch, dispatchedCode flow codes = .ok dispatch := by
  have cases : ∀ block ∈ reachableBlocks flow,
      ∃ case, dispatchCase flow codes block = .ok case := by
    intro block member
    obtain ⟨code, found⟩ := translated.exists_codeOf ((mem_reachableBlocks wellBuilt).mp member)
    obtain ⟨exit, made⟩ : ∃ exit, exitSkeleton flow (dispatchJump flow) code.exit = .ok exit := by
      apply exists_exitSkeleton
      intro offset member
      obtain ⟨target, _, here⟩ := translated.exists_next wellBuilt (codeOf_eq_ok.mp found) member
      exact ⟨target, here, _, rfl⟩
    exact ⟨_, bind_eq_ok.mpr ⟨code, found, bind_eq_ok.mpr ⟨exit, made, rfl⟩⟩⟩
  obtain ⟨cases, made⟩ := exists_mapM_eq_ok cases
  obtain ⟨recoveries, made'⟩ := exists_mapM_eq_ok fun block
    (_ : block ∈ (reachableBlocks flow).filter fun block => !(flow.covering block).isEmpty) =>
      exists_dispatchRecovery block
  exact ⟨⟨flow.start ControlFlow.entry, cases, recoveries⟩,
    bind_eq_ok.mpr ⟨cases, made, bind_eq_ok.mpr ⟨recoveries, made', rfl⟩⟩⟩

/-- The case of a block is found by the offset at which the block starts. -/
theorem selectBlock_of_mem (wellBuilt : flow.WellBuilt) {blocks : List Nat}
    {cases : List (Nat × Skeleton)} (made : blocks.mapM (dispatchCase flow codes) = .ok cases)
    (inside : ∀ block ∈ blocks, block < flow.size) (member : block ∈ blocks) :
    ∃ code exit behind, codes.getD block none = some code ∧
      exitSkeleton flow (dispatchJump flow) code.exit = .ok exit ∧
      selectBlock (flow.start block) cases =
        some (.andThen (.block block code.statements .rethrow) exit, behind) := by
  have bound := inside block member
  have related := mapM_eq_ok.mp made
  clear made
  induction related with
  | nil => cases member
  | @cons first _ rest _ here _ ih =>
    obtain ⟨code, found, here⟩ := bind_eq_ok.mp here
    obtain ⟨exit, made, here⟩ := bind_eq_ok.mp here
    cases here
    obtain ⟨limit, inside⟩ := List.forall_mem_cons.mp inside
    rw [selectBlock]
    split
    next same =>
      cases wellBuilt.start_inj limit bound same
      exact ⟨code, exit, _, codeOf_eq_ok.mp found, made, rfl⟩
    next other =>
      rcases List.mem_cons.mp member with rfl | later
      · exact absurd rfl other
      · exact ih inside later

/-! ## The clause that catches exceptions -/

variable {exception : Thrown} {frames : List (Frame Thrown)} {history : History Thrown}
  {blocks : List Nat} {recoveries : List (Nat × Recovery)}

/-- An exception of a block that has no handlers is passed on. -/
theorem locate_of_not_mem (wellBuilt : flow.WellBuilt)
    (made : blocks.mapM (dispatchRecovery flow) = .ok recoveries)
    (inside : ∀ other ∈ blocks, other < flow.size) (bound : block < flow.size)
    (missing : block ∉ blocks) :
    Reaches oracle ⟨.locate exception recoveries, frames, flow.start block, history⟩
      ⟨.complete (.throws exception), frames, flow.start block, history⟩ := by
  have related := mapM_eq_ok.mp made
  clear made
  induction related with
  | nil => exact .single ⟨trivial, rfl⟩
  | @cons first _ rest behind here _ ih =>
    obtain ⟨recovery, made, here⟩ := bind_eq_ok.mp here
    cases here
    obtain ⟨limit, inside⟩ := List.forall_mem_cons.mp inside
    obtain ⟨other, missing⟩ := not_or.mp (List.mem_cons.not.mp missing)
    have apart : flow.start block ≠ flow.start first :=
      fun same => other (wellBuilt.start_inj bound limit same)
    refine (ih inside missing).head ⟨trivial, ?_⟩
    simp only [State.step, State.stepLocate, if_neg apart]

/-- The handlers of a block are found by the offset at which the block starts.  The tests behind
them find nothing. -/
theorem locate_of_mem (oracle : Oracle Thrown) (exception : Thrown) (wellBuilt : flow.WellBuilt)
    (made : blocks.mapM (dispatchRecovery flow) = .ok recoveries)
    (inside : ∀ other ∈ blocks, other < flow.size) (distinct : blocks.Nodup)
    (member : block ∈ blocks) (frames : List (Frame Thrown)) (history : History Thrown) :
    ∃ recovery behind,
      recoveryOf (dispatchJump flow) (HandlerGroup.ofHandlers (flow.covering block)) =
        .ok recovery ∧
      Reaches oracle ⟨.locate exception recoveries, frames, flow.start block, history⟩
        ⟨.test exception recovery, .recoveries exception behind :: frames, flow.start block,
          history⟩ ∧
      Reaches oracle ⟨.locate exception behind, frames, flow.start block, history⟩
        ⟨.complete (.throws exception), frames, flow.start block, history⟩ := by
  have bound := inside block member
  induction blocks generalizing recoveries with
  | nil => cases member
  | cons first rest ih =>
    rw [List.mapM_cons, bind_eq_ok] at made
    obtain ⟨entry, here, made⟩ := made
    obtain ⟨behind, there, made⟩ := bind_eq_ok.mp made
    cases made
    obtain ⟨recovery, handled, here⟩ := bind_eq_ok.mp here
    cases here
    obtain ⟨limit, others⟩ := List.forall_mem_cons.mp inside
    obtain ⟨fresh, distinct⟩ := List.nodup_cons.mp distinct
    by_cases this : block = first
    · subst this
      refine ⟨recovery, behind, handled, .single ⟨trivial, ?_⟩,
        locate_of_not_mem wellBuilt there others bound fresh⟩
      simp only [State.step, State.stepLocate, if_true, State.push]
    · have apart : flow.start block ≠ flow.start first :=
        fun same => this (wellBuilt.start_inj bound limit same)
      obtain ⟨recovery, behind, found, reaches, passed⟩ :=
        ih there others distinct ((List.mem_cons.mp member).resolve_left this)
      refine ⟨recovery, behind, found, reaches.head ⟨trivial, ?_⟩, passed⟩
      simp only [State.step, State.stepLocate, if_neg apart]

/-! ## Running a dispatch -/

variable {dispatch : Dispatch}

theorem dispatchedCode_eq_ok : dispatchedCode flow codes = .ok dispatch ↔
    dispatch.entry = flow.start ControlFlow.entry ∧
      (reachableBlocks flow).mapM (dispatchCase flow codes) = .ok dispatch.cases ∧
      ((reachableBlocks flow).filter fun block => !(flow.covering block).isEmpty).mapM
        (dispatchRecovery flow) = .ok dispatch.recoveries := by
  constructor
  · intro made
    obtain ⟨cases, here, made⟩ := bind_eq_ok.mp made
    obtain ⟨recoveries, there, made⟩ := bind_eq_ok.mp made
    cases made
    exact ⟨rfl, here, there⟩
  · rintro ⟨entry, here, there⟩
    exact bind_eq_ok.mpr ⟨_, here, bind_eq_ok.mpr ⟨_, there, congrArg _ (by rw [← entry])⟩⟩

/-- The machine begins the loop of a dispatch with a block. -/
def AtCase (flow : ControlFlow) (dispatch : Dispatch) (block : Nat) (state : State Thrown) : Prop :=
  flow.shape.graph.Reachable block ∧ ∃ history,
    state = ⟨.iterate dispatch, [], flow.start block, history⟩

/-- Whatever stands around a jump, it begins the loop of the dispatch again. -/
theorem dispatchTo_reaches (oracle : Oracle Thrown) (dispatch : Dispatch)
    (inner : List (Frame Thrown)) (label next : ℕ) (history : History Thrown)
    (plain : ∀ frame ∈ inner, frame.NoLoop) :
    Reaches oracle ⟨.run (.dispatchTo label), inner ++ [.forever dispatch], next, history⟩
      ⟨.iterate dispatch, [], label, history⟩ := by
  have jumps : Moves oracle ⟨.run (.dispatchTo label), inner ++ [.forever dispatch], next, history⟩
      ⟨.complete (.continues none), inner ++ [.forever dispatch], label, history⟩ := ⟨trivial, rfl⟩
  have again : Moves oracle ⟨.complete (.continues none), [.forever dispatch], label, history⟩
      ⟨.iterate dispatch, [], label, history⟩ := ⟨trivial, rfl⟩
  have leaves := reaches_pass oracle (.continues none) inner [.forever dispatch] label history
    fun frame member => (plain frame member).passes
  exact (leaves.head jumps).tail again

/-- What stands around a block of a dispatch while it runs. -/
def aroundCase (dispatch : Dispatch) (behind : List (Nat × Skeleton)) : List (Frame Thrown) :=
  [.blocks behind, .guarded dispatch, .forever dispatch]

/-- A block of a dispatch that completes goes on as the walk does. -/
theorem exit_dispatch (oracle : Oracle Thrown) (dispatch : Dispatch)
    (behind : List (Nat × Skeleton)) (wellBuilt : flow.WellBuilt)
    (translated : Translated flow codes) (reachable : flow.shape.graph.Reachable block)
    {code : BlockCode} {exit : Skeleton} (coded : codes.getD block none = some code)
    (made : exitSkeleton flow (dispatchJump flow) code.exit = .ok exit)
    (stays : code.exit ≠ .throw) (next : ℕ) (history : History Thrown) :
    ∃ after, Reaches oracle ⟨.run exit, aroundCase dispatch behind, next, history⟩ after ∧
      Related oracle (AtCase flow dispatch) ⟨afterExit flow oracle history code.exit, history⟩
        after := by
  rcases run_exitSkeleton oracle history made stays (aroundCase dispatch behind) next with
    ⟨target, body, inner, goes, jump, cases, reaches⟩ | ⟨value, goes, reaches⟩
  · cases jump
    have again := dispatchTo_reaches oracle dispatch
      (inner ++ [.blocks behind, .guarded dispatch]) (flow.start target) next history
      fun frame member => by
        rcases List.mem_append.mp member with inside | outside
        · obtain ⟨behind, rfl⟩ := cases frame inside
          trivial
        · rcases List.mem_cons.mp outside with rfl | outside
          · trivial
          · rw [List.mem_singleton.mp outside]
            trivial
    rw [List.append_assoc] at again
    refine ⟨_, reaches.trans again, ?_⟩
    rw [goes]
    obtain ⟨offset, member, found⟩ := exists_target_of_afterExit goes
    obtain ⟨other, listed, same⟩ := translated.exists_next wellBuilt coded member
    cases found.symm.trans same
    exact ⟨rfl, rfl, .step reachable (wellBuilt.edge_of_next listed) trivial, history, rfl⟩
  · refine ⟨⟨.complete (.leaves value), [], next, history⟩, ?_, ?_⟩
    · refine reaches.trans ?_
      have leaves := reaches_pass oracle (.leaves value) (aroundCase dispatch behind) [] next
        history fun frame _ => passes_leaves value frame
      rwa [List.append_nil] at leaves
    · rw [goes]
      exact ⟨rfl, rfl, trivial, rfl⟩

/-- An exception that left the switch goes to the handlers of its block, or leaves the method. -/
theorem failure_dispatch (oracle : Oracle Thrown) (exception : Thrown) (wellBuilt : flow.WellBuilt)
    (reachable : flow.shape.graph.Reachable block)
    (made : dispatchedCode flow codes = .ok dispatch) (history : History Thrown) :
    ∃ after, Reaches oracle
        ⟨.locate exception dispatch.recoveries, [.forever dispatch], flow.start block, history⟩
        after ∧
      Related oracle (AtCase flow dispatch) (afterFailure flow oracle block exception history)
        after := by
  obtain ⟨_, _, made⟩ := dispatchedCode_eq_ok.mp made
  have bound : block < flow.size := wellBuilt.size ▸ reachable.lt_size
  have inside : ∀ other ∈ (reachableBlocks flow).filter fun block =>
      !(flow.covering block).isEmpty, other < flow.size := fun other member =>
    List.mem_range.mp (List.mem_filter.mp (List.mem_filter.mp member).1).1
  have passed : Reaches oracle ⟨.complete (.throws exception), [.forever dispatch],
      flow.start block, history⟩ ⟨.complete (.throws exception), [], flow.start block, history⟩ :=
    .single ⟨trivial, rfl⟩
  have ended : Related oracle (AtCase flow dispatch) ⟨.ended (.threw exception), history⟩
      ⟨.complete (.throws exception), [], flow.start block, history⟩ :=
    ⟨rfl, rfl, trivial, rfl⟩
  cases empty : (flow.covering block).isEmpty with
  | true =>
    refine ⟨_, (locate_of_not_mem wellBuilt made inside bound fun member => ?_).trans passed, ?_⟩
    · simp [empty] at member
    · rw [afterFailure, List.isEmpty_iff.mp empty]
      exact ended
  | false =>
    have member : block ∈ (reachableBlocks flow).filter fun block =>
        !(flow.covering block).isEmpty :=
      List.mem_filter.mpr ⟨(mem_reachableBlocks wellBuilt).mpr reachable, by simp [empty]⟩
    have distinct := (List.nodup_range (n := flow.size)).filter flow.shape.isReachable |>.filter
      fun block => !(flow.covering block).isEmpty
    obtain ⟨recovery, behind, handled, reaches, onward⟩ :=
      locate_of_mem oracle exception wellBuilt made inside distinct member [.forever dispatch]
        history
    have tested := test_recoveryOf oracle exception handled
      (.recoveries exception behind :: [.forever dispatch]) (flow.start block) history
    rw [afterFailure]
    split
    next handler found =>
      obtain ⟨group, caught, target⟩ := HandlerGroup.find?_ofHandlers_some found
      rw [caught] at tested
      obtain ⟨body, later, jump, tested⟩ := tested
      cases jump
      have again := dispatchTo_reaches oracle dispatch
        [.tests exception later, .recoveries exception behind] (flow.start group.target)
        (flow.start block) (.bind exception :: history) (by simp [Frame.NoLoop])
      refine ⟨_, (reaches.trans tested).trans again, rfl, rfl, ?_, _, by rw [target]⟩
      exact .step reachable (wellBuilt.edge_of_covering (List.mem_of_find?_eq_some found)) trivial
    next missing =>
      rw [HandlerGroup.find?_ofHandlers_none missing] at tested
      refine ⟨_, (reaches.trans tested).trans ((onward.trans passed).head ⟨trivial, rfl⟩), ended⟩

/-- The machine gets from one block of a dispatch to the next as a walk does. -/
theorem visit_dispatch (wellBuilt : flow.WellBuilt) (translated : Translated flow codes)
    (made : dispatchedCode flow codes = .ok dispatch)
    (reachable : flow.shape.graph.Reachable block) (history : History Thrown) :
    ∃ after, Advances oracle ⟨.iterate dispatch, [], flow.start block, history⟩ after ∧
      Related oracle (AtCase flow dispatch) (visitBlock flow codes oracle block history) after := by
  obtain ⟨_, cases, _⟩ := dispatchedCode_eq_ok.mp made
  obtain ⟨code, exit, behind, coded, exited, selected⟩ := selectBlock_of_mem wellBuilt cases
    (fun other member => List.mem_range.mp (List.mem_filter.mp member).1)
    ((mem_reachableBlocks wellBuilt).mpr reachable)
  have enters : Moves oracle ⟨.iterate dispatch, [], flow.start block, history⟩
      ⟨.run (.andThen (.block block code.statements .rethrow) exit), aroundCase dispatch behind,
        flow.start block, history⟩ := by
    refine ⟨⟨_, selected⟩, ?_⟩
    simp only [State.step, State.stepIterate, selected, aroundCase]
  rw [visitBlock, coded]
  dsimp only
  cases outcome : oracle.outcome code.statements (.visit block :: history) with
  | none =>
    obtain ⟨after, reaches, related⟩ := exit_dispatch oracle dispatch behind wellBuilt translated
      reachable coded exited (translated.exit_ne_throw coded outcome) (flow.start block)
      (.visit block :: history)
    exact ⟨after, .head enters ((block_completes outcome).trans_left reaches), related⟩
  | some exception =>
    obtain ⟨after, reaches, related⟩ := failure_dispatch oracle exception wellBuilt
      reachable made (.visit block :: history)
    have passes : Moves oracle
        ⟨.recover exception .rethrow, .next exit :: aroundCase dispatch behind, flow.start block,
          .visit block :: history⟩
        ⟨.complete (.throws exception), .next exit :: aroundCase dispatch behind,
          flow.start block, .visit block :: history⟩ := ⟨trivial, rfl⟩
    have leaves := reaches_pass oracle (.throws exception) [.next exit, .blocks behind]
      [.guarded dispatch, .forever dispatch] (flow.start block) (.visit block :: history)
      (by simp [passes_throws])
    have caught : Moves oracle ⟨.complete (.throws exception),
        [.guarded dispatch, .forever dispatch], flow.start block, .visit block :: history⟩
        ⟨.locate exception dispatch.recoveries, [.forever dispatch], flow.start block,
          .visit block :: history⟩ := ⟨trivial, rfl⟩
    have onward := ((leaves.tail caught).trans reaches).head passes
    exact ⟨after, .head enters ((block_fails outcome).trans_left onward), related⟩

/-- Blocks side by side follow the flow, whatever its shape is. -/
theorem dispatch_follows (wellBuilt : flow.WellBuilt) (translated : Translated flow codes)
    (made : dispatchedCode flow codes = .ok dispatch) :
    Follows oracle (.dispatched dispatch) flow codes := by
  refine follows_of_related (AtCase flow dispatch) ⟨_, .refl, rfl, rfl, ?_⟩ ?_
  · obtain ⟨entry, _⟩ := dispatchedCode_eq_ok.mp made
    exact ⟨wellBuilt.reachable_entry, [], by rw [begin, entry]⟩
  · rintro block state ⟨reachable, history, rfl⟩
    exact visit_dispatch wellBuilt translated made reachable history

end Bytescript.Translation
