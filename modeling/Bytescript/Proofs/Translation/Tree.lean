import Bytescript.Proofs.Translation.Waiting
import Bytescript.Proofs.Translation.Exit
import Bytescript.Proofs.Translation.Handler

/-!
# The nested code of a block

The nested code of a block can be taken apart: the block with what handles its exceptions and how
it is left, then a labelled part for each merge that it immediately dominates, and around all of
that a loop if backward edges lead to the block.  It can be made for every block that can be
reached, because each step down goes forward in the order of the blocks.
-/

set_option autoImplicit false

namespace Bytescript.Translation

open Bytescript.Flow Script

variable {flow : ControlFlow} {codes : Codes} {inline jump : Jump} {block target : Nat}
  {skeleton : Skeleton}

/-! ## Taking the code apart -/

theorem guardedBlock_eq_ok :
    guardedBlock flow codes jump block = .ok skeleton ↔
      ∃ code recovery exit, codes.getD block none = some code ∧
        recoveryOf jump (HandlerGroup.ofHandlers (flow.covering block)) = .ok recovery ∧
        exitSkeleton flow jump code.exit = .ok exit ∧
        skeleton = .andThen (.block block code.statements recovery) exit := by
  constructor
  · intro made
    obtain ⟨code, found, made⟩ := bind_eq_ok.mp made
    obtain ⟨recovery, handled, made⟩ := bind_eq_ok.mp made
    obtain ⟨exit, left, made⟩ := bind_eq_ok.mp made
    cases made
    exact ⟨code, recovery, exit, codeOf_eq_ok.mp found, handled, left, rfl⟩
  · rintro ⟨code, recovery, exit, coded, handled, left, rfl⟩
    exact bind_eq_ok.mpr ⟨code, codeOf_eq_ok.mpr coded,
      bind_eq_ok.mpr ⟨recovery, handled, bind_eq_ok.mpr ⟨exit, left, rfl⟩⟩⟩

/-- The merges that a block immediately dominates, in order. -/
def mergesOf (flow : ControlFlow) (block : Nat) : List Nat :=
  (flow.shape.children block).filter flow.shape.isMerge

theorem treeOf_succ_eq_ok {fuel : Nat} :
    treeOf flow codes (fuel + 1) block = .ok skeleton ↔
      ∃ guarded inner,
        guardedBlock flow codes (jumpFrom flow (treeOf flow codes fuel) block) block = .ok guarded ∧
        withMerges flow (treeOf flow codes fuel) guarded (mergesOf flow block) = .ok inner ∧
        skeleton = if flow.shape.isLoopHeader block then .loop (flow.start block) inner
          else inner := by
  constructor
  · intro made
    obtain ⟨guarded, here, made⟩ := bind_eq_ok.mp made
    obtain ⟨inner, there, made⟩ := bind_eq_ok.mp made
    cases made
    exact ⟨guarded, inner, here, there, rfl⟩
  · rintro ⟨guarded, inner, here, there, rfl⟩
    exact bind_eq_ok.mpr ⟨guarded, here, bind_eq_ok.mpr ⟨inner, there, rfl⟩⟩

theorem withMerges_cons_eq_ok {body : Skeleton} {merge : Nat} {rest : List Nat} :
    withMerges flow inline body (merge :: rest) = .ok skeleton ↔
      ∃ after, inline merge = .ok after ∧
        withMerges flow inline (.andThen (.labelled (flow.start merge) body) after) rest =
          .ok skeleton :=
  bind_eq_ok

/-- A jump is either of three kinds. -/
theorem jumpFrom_eq_ok (made : jumpFrom flow inline block target = .ok skeleton) :
    (flow.shape.isBackward block target = true ∧ skeleton = .continueTo (flow.start target)) ∨
    (flow.shape.isBackward block target = false ∧ flow.shape.isMerge target = true ∧
      skeleton = .breakTo (flow.start target)) ∨
    (flow.shape.isBackward block target = false ∧ flow.shape.isMerge target = false ∧
      inline target = .ok skeleton) := by
  rw [jumpFrom] at made
  split at made
  next back =>
    cases made
    exact .inl ⟨back, rfl⟩
  next ahead =>
    rw [Bool.not_eq_true] at ahead
    split at made
    next isMerge =>
      cases made
      exact .inr (.inl ⟨ahead, isMerge, rfl⟩)
    next single =>
      rw [Bool.not_eq_true] at single
      exact .inr (.inr ⟨ahead, single, made⟩)

/-! ## Edges that go forward -/

theorem forward_of_edge (wellBuilt : flow.WellBuilt) (reachable : flow.shape.graph.Reachable block)
    (edge : flow.shape.graph.Edge block target)
    (ahead : flow.shape.isBackward block target = false) :
    Analysis.Forward flow.shape.graph block target := by
  rw [wellBuilt.shape] at ahead
  exact Analysis.forward_of_not_isBackward reachable edge ahead

/-- The code of a block that is no merge stands inside of the only block that goes forward to
it. -/
theorem immediateDominator_of_edge (wellBuilt : flow.WellBuilt)
    (reducible : flow.shape.reducible = true) (reachable : flow.shape.graph.Reachable block)
    (edge : flow.shape.graph.Edge block target)
    (ahead : flow.shape.isBackward block target = false)
    (single : flow.shape.isMerge target = false) :
    flow.shape.immediateDominator target = some block := by
  have forward := forward_of_edge wellBuilt reachable edge ahead
  rw [wellBuilt.shape] at reducible single ⊢
  exact Analysis.immediateDominator_of_not_isMerge reducible forward single

/-! ## The merges of a block -/

theorem mem_mergesOf (wellBuilt : flow.WellBuilt) {merge : Nat} :
    merge ∈ mergesOf flow block ↔
      flow.shape.immediateDominator merge = some block ∧ flow.shape.isMerge merge = true := by
  rw [mergesOf, List.mem_filter, wellBuilt.shape, Analysis.mem_children]

theorem mergesOf_pairwise (wellBuilt : flow.WellBuilt) :
    (mergesOf flow block).Pairwise fun one other =>
      flow.shape.graph.place one < flow.shape.graph.place other := by
  have ordered := Analysis.children_pairwise flow.shape.graph block
  rw [← wellBuilt.shape] at ordered
  exact ordered.filter _

theorem strictlyDominates_of_immediateDominator (wellBuilt : flow.WellBuilt)
    (immediate : flow.shape.immediateDominator target = some block) :
    flow.shape.graph.StrictlyDominates block target := by
  rw [wellBuilt.shape] at immediate
  exact (Analysis.immediateDominator_iff.mp immediate).1

theorem strictlyDominates_of_merge (shape : flow.shape = .of flow.shape.graph) {merge : Nat}
    (member : merge ∈ mergesOf flow block) : flow.shape.graph.StrictlyDominates block merge := by
  rw [mergesOf, List.mem_filter, shape, Analysis.mem_children] at member
  exact (Analysis.immediateDominator_iff.mp member.1).1

theorem strictlyDominates_of_mem_mergesOf (wellBuilt : flow.WellBuilt) {merge : Nat}
    (member : merge ∈ mergesOf flow block) : flow.shape.graph.StrictlyDominates block merge :=
  strictlyDominates_of_merge wellBuilt.shape member

/-- The last merges that a block immediately dominates, in order. -/
structure LastMerges (flow : ControlFlow) (block : Nat) (merges : List Nat) : Prop where
  listed : ∀ merge ∈ merges, merge ∈ mergesOf flow block
  ordered : merges.Pairwise fun one other =>
    flow.shape.graph.place one < flow.shape.graph.place other
  complete : ∀ merge ∈ mergesOf flow block, merge ∈ merges ∨
    ∀ other ∈ merges, flow.shape.graph.place merge < flow.shape.graph.place other

theorem lastMerges_all (wellBuilt : flow.WellBuilt) :
    LastMerges flow block (mergesOf flow block) :=
  ⟨fun _ member => member, mergesOf_pairwise wellBuilt, fun _ member => .inl member⟩

namespace LastMerges

variable {merge : Nat} {rest : List Nat}

theorem tail (merges : LastMerges flow block (merge :: rest)) : LastMerges flow block rest where
  listed other later := merges.listed other (.tail _ later)
  ordered := (List.pairwise_cons.mp merges.ordered).2
  complete other known := by
    rcases merges.complete other known with within | before
    · rcases List.mem_cons.mp within with rfl | later
      · exact .inr (List.pairwise_cons.mp merges.ordered).1
      · exact .inl later
    · exact .inr fun last later => before last (.tail _ later)

/-- What stands behind the first of the last merges is one of the others. -/
theorem mem_rest (merges : LastMerges flow block (merge :: rest)) {other : Nat}
    (known : other ∈ mergesOf flow block)
    (behind : flow.shape.graph.place merge < flow.shape.graph.place other) : other ∈ rest := by
  rcases merges.complete other known with within | before
  · rcases List.mem_cons.mp within with rfl | later
    · exact absurd behind (lt_irrefl _)
    · exact later
  · exact absurd (before merge List.mem_cons_self) behind.asymm

theorem head_notMem (merges : LastMerges flow block (merge :: rest)) : merge ∉ rest :=
  fun later => lt_irrefl _ ((List.pairwise_cons.mp merges.ordered).1 merge later)

end LastMerges

/-! ## Making the code -/

theorem exists_guardedBlock (wellBuilt : flow.WellBuilt) (translated : Translated flow codes)
    (jump : Jump) (reachable : flow.shape.graph.Reachable block)
    (jumps : ∀ target, flow.shape.graph.Edge block target → ∃ body, jump target = .ok body) :
    ∃ skeleton, guardedBlock flow codes jump block = .ok skeleton := by
  obtain ⟨code, coded⟩ := translated.coded reachable
  obtain ⟨recovery, handled⟩ : ∃ recovery,
      recoveryOf jump (HandlerGroup.ofHandlers (flow.covering block)) = .ok recovery := by
    apply exists_recoveryOf _ _
    intro group member
    obtain ⟨handler, listed, target⟩ := HandlerGroup.exists_handler_of_mem member
    exact target ▸ jumps handler.target (wellBuilt.edge_of_covering listed)
  obtain ⟨exit, left⟩ : ∃ exit, exitSkeleton flow jump code.exit = .ok exit := by
    apply exists_exitSkeleton
    intro offset member
    obtain ⟨target, listed, here⟩ := translated.exists_next wellBuilt coded member
    exact ⟨target, here, jumps target (wellBuilt.edge_of_next listed)⟩
  exact ⟨_, guardedBlock_eq_ok.mpr ⟨code, recovery, exit, coded, handled, left, rfl⟩⟩

theorem exists_withMerges (flow : ControlFlow) {merges : List Nat}
    (makes : ∀ merge ∈ merges, ∃ after, inline merge = .ok after) (body : Skeleton) :
    ∃ skeleton, withMerges flow inline body merges = .ok skeleton := by
  induction merges generalizing body with
  | nil => exact ⟨body, rfl⟩
  | cons merge rest ih =>
    obtain ⟨after, made⟩ := makes merge List.mem_cons_self
    obtain ⟨skeleton, rest⟩ := ih (fun other member => makes other (.tail _ member))
      (.andThen (.labelled (flow.start merge) body) after)
    exact ⟨skeleton, withMerges_cons_eq_ok.mpr ⟨after, made, rest⟩⟩

/-- Nested code can be made for every block that can be reached.  With each step down the order has
less room for blocks behind, so the steps suffice. -/
theorem exists_treeOf (wellBuilt : flow.WellBuilt) (translated : Translated flow codes)
    {fuel : Nat} (reachable : flow.shape.graph.Reachable block)
    (enough : flow.size ≤ fuel + flow.shape.graph.place block) :
    ∃ skeleton, treeOf flow codes fuel block = .ok skeleton := by
  induction fuel generalizing block with
  | zero =>
    have inside := Graph.place_lt_size reachable
    rw [wellBuilt.size] at inside
    omega
  | succ fuel ih =>
    obtain ⟨guarded, here⟩ := exists_guardedBlock wellBuilt translated
      (jumpFrom flow (treeOf flow codes fuel) block) reachable fun target edge => by
        rw [jumpFrom]
        split
        · exact ⟨_, rfl⟩
        next ahead =>
          split
          · exact ⟨_, rfl⟩
          · have forward := forward_of_edge wellBuilt reachable edge (Bool.not_eq_true _ ▸ ahead)
            have behind := forward.2.2
            exact ih (.step reachable edge trivial) (by omega)
    obtain ⟨inner, there⟩ := exists_withMerges flow
      (fun merge (member : merge ∈ mergesOf flow block) => by
        have strict := strictlyDominates_of_mem_mergesOf wellBuilt member
        have behind := strict.place_lt
        exact ih strict.1.1 (by omega)) guarded
    exact ⟨_, treeOf_succ_eq_ok.mpr ⟨guarded, inner, here, there, rfl⟩⟩

theorem exists_structuredCode (wellBuilt : flow.WellBuilt) (translated : Translated flow codes) :
    ∃ skeleton, structuredCode flow codes = .ok skeleton :=
  exists_treeOf wellBuilt translated wellBuilt.reachable_entry (Nat.le_add_right _ _)

end Bytescript.Translation
