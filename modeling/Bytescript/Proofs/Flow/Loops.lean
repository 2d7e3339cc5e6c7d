import Bytescript.Proofs.Flow.Reducible

/-!
# Edges that go back are loops

The order of a flow lists what the entry leads to, every block once and the entry first.  Whether
an edge goes back is decided by the places of its ends in this order alone.  Still an edge that goes
back always closes a cycle, and every cycle has such an edge, since places cannot rise all the way
round.  So loops begin in a flow exactly if there is a cycle to write.
-/

set_option autoImplicit false

namespace Bytescript.Flow

open Bytescript.Flow.Graph Relation

/-! ## Cycles of graphs -/

/-- The entry stands at the head of the order. -/
theorem Graph.head?_reversePostorder {graph : Graph} (nonempty : 0 < graph.size) :
    graph.reversePostorder.head? = some 0 := by
  have listed : 0 ∈ graph.reversePostorder := mem_reversePostorder.mpr (.entry nonempty trivial)
  rcases (reversePostorder_extends graph).2.2 with empty | ⟨rest, order, _⟩
  · rw [empty] at listed
    cases listed
  · rw [order]
    rfl

namespace Analysis

variable {graph : Graph} {node source target : Nat}

/-- What edges lead to from a node that can be reached can be reached. -/
theorem reachable_of_path (reachable : graph.Reachable source)
    (path : ReflTransGen graph.Edge source target) : graph.Reachable target := by
  induction path with
  | refl => exact reachable
  | tail _ edge ih => exact .step ih edge trivial

/-- Without edges that go back, places rise along every path. -/
theorem place_lt_of_path
    (ahead : ∀ source target, graph.Reachable source → graph.Edge source target →
      (Analysis.of graph).isBackward source target = false)
    (reachable : graph.Reachable source) (path : TransGen graph.Edge source target) :
    graph.place source < graph.place target := by
  have rises {one other : Nat} (here : graph.Reachable one) (edge : graph.Edge one other) :
      graph.place one < graph.place other :=
    (forward_of_not_isBackward here edge (ahead one other here edge)).2.2
  induction path with
  | single edge => exact rises reachable edge
  | tail path edge ih =>
    exact ih.trans (rises (reachable_of_path reachable path.to_reflTransGen) edge)

/-- An edge that goes back closes a cycle. -/
theorem path_of_isBackward (edge : graph.Edge source target)
    (back : (Analysis.of graph).isBackward source target = true) :
    ReflTransGen graph.Edge target source := by
  obtain ⟨reachable, _, behind⟩ := isBackward_iff.mp back
  exact ReflTransGen.mono (fun _ _ forward => forward.2.1) _ _
    (forward_of_back reachable edge behind)

/-- Loops begin somewhere exactly if there is a cycle that can be reached. -/
theorem exists_isLoopHeader_iff :
    (∃ node, (Analysis.of graph).isLoopHeader node = true) ↔
      ∃ node, graph.Reachable node ∧ TransGen graph.Edge node node := by
  constructor
  · rintro ⟨node, header⟩
    obtain ⟨source, edge, back⟩ := isLoopHeader_iff.mp header
    exact ⟨node, (isBackward_iff.mp back).2.1,
      TransGen.tail' (path_of_isBackward edge back) edge⟩
  · rintro ⟨node, reachable, cycle⟩
    by_contra none
    refine lt_irrefl _ (place_lt_of_path (fun source target _ edge => ?_) reachable cycle)
    rw [← Bool.not_eq_true]
    exact fun back => none ⟨target, isLoopHeader_iff.mpr ⟨source, edge, back⟩⟩

end Analysis

/-! ## Cycles of flows -/

namespace ControlFlow

variable {flow : ControlFlow} {instructions : List Placed} {table : List ExceptionEntry}
  {codeLength : Nat}

theorem BuiltFrom.edge_eq (builtFrom : flow.BuiltFrom instructions table codeLength) :
    flow.shape.graph.Edge = flow.LeadsTo := by
  funext source target
  exact propext builtFrom.edge_iff

theorem BuiltFrom.order_eq (builtFrom : flow.BuiltFrom instructions table codeLength) :
    flow.shape.order = flow.shape.graph.reversePostorder := by
  rw [builtFrom.shape]
  rfl

/-- The order lists what the entry leads to. -/
theorem BuiltFrom.mem_order (builtFrom : flow.BuiltFrom instructions table codeLength)
    {block : Nat} : block ∈ flow.shape.order ↔ ReflTransGen flow.LeadsTo entry block := by
  rw [builtFrom.order_eq, mem_reversePostorder, ← builtFrom.edge_eq]
  have start : flow.shape.graph.Reachable entry :=
    .entry (builtFrom.size ▸ builtFrom.nonempty) trivial
  refine ⟨fun reachable => ?_, Analysis.reachable_of_path start⟩
  induction reachable with
  | entry _ _ => exact .refl
  | step _ edge _ ih => exact ih.tail edge

/-- **Edges that go back are loops.**  The order of a flow that was built lists exactly the blocks
that the entry leads to, each once and the entry first.  An edge from one of them that goes back
closes a cycle; loops begin in the flow exactly if one of these blocks leads to itself, and if none
does, every edge goes forward in the order. -/
theorem build_backward_iff_cycle
    (built : build instructions table codeLength = .ok flow) :
    (∀ block, block ∈ flow.shape.order ↔ ReflTransGen flow.LeadsTo entry block) ∧
      flow.shape.order.Nodup ∧ flow.shape.order.head? = some entry ∧
      (∀ source ∈ flow.shape.order, ∀ target, flow.LeadsTo source target →
        flow.shape.isBackward source target = true → ReflTransGen flow.LeadsTo target source) ∧
      ((∃ block, flow.shape.isLoopHeader block = true) ↔
        ∃ block ∈ flow.shape.order, TransGen flow.LeadsTo block block) ∧
      ((¬ ∃ block ∈ flow.shape.order, TransGen flow.LeadsTo block block) →
        ∀ source ∈ flow.shape.order, ∀ target, flow.LeadsTo source target →
          flow.shape.order.idxOf source < flow.shape.order.idxOf target) := by
  have builtFrom := build_builtFrom built
  have headers : (∃ block, flow.shape.isLoopHeader block = true) ↔
      ∃ block ∈ flow.shape.order, TransGen flow.LeadsTo block block := by
    rw [builtFrom.order_eq, ← builtFrom.edge_eq, builtFrom.shape]
    simp only [mem_reversePostorder]
    exact Analysis.exists_isLoopHeader_iff
  refine ⟨fun block => builtFrom.mem_order, ?_, ?_, ?_, headers, ?_⟩
  · exact builtFrom.order_eq ▸ reversePostorder_nodup flow.shape.graph
  · rw [builtFrom.order_eq]
    exact head?_reversePostorder (builtFrom.size ▸ builtFrom.nonempty)
  · intro source _ target leads back
    rw [← builtFrom.edge_eq] at leads ⊢
    rw [builtFrom.shape] at back
    exact Analysis.path_of_isBackward leads back
  · intro acyclic source listed target leads
    have ahead : flow.shape.isBackward source target = false := by
      rw [← Bool.not_eq_true]
      intro back
      refine acyclic (headers.mp ⟨target, ?_⟩)
      rw [← builtFrom.edge_eq] at leads
      rw [builtFrom.shape] at back ⊢
      exact Analysis.isLoopHeader_iff.mpr ⟨source, leads, back⟩
    rw [← builtFrom.edge_eq] at leads
    rw [builtFrom.order_eq] at listed ⊢
    rw [builtFrom.shape] at ahead
    exact (Analysis.forward_of_not_isBackward (mem_reversePostorder.mp listed) leads ahead).2.2

/-- A block that branches to itself, entered with and without an exception, and a block at the end
that cannot be reached. -/
def ownLoop : List Placed :=
  [⟨0, 0x1a, .load .int 0⟩, ⟨1, 0x1a, .load .int 0⟩, ⟨2, 0x99, .ifZero .equal 1⟩,
    ⟨5, 0xb1, .leave none⟩, ⟨6, 0xb1, .leave none⟩]

theorem ownLoop_backward_iff_cycle :
    ∃ flow, build ownLoop [⟨0, 1, 1, none⟩] 7 = .ok flow ∧
      (∀ block, block ∈ flow.shape.order ↔ ReflTransGen flow.LeadsTo entry block) ∧
      flow.shape.order.Nodup ∧ flow.shape.order.head? = some entry ∧
      (∀ source ∈ flow.shape.order, ∀ target, flow.LeadsTo source target →
        flow.shape.isBackward source target = true → ReflTransGen flow.LeadsTo target source) ∧
      ((∃ block, flow.shape.isLoopHeader block = true) ↔
        ∃ block ∈ flow.shape.order, TransGen flow.LeadsTo block block) ∧
      ((¬ ∃ block ∈ flow.shape.order, TransGen flow.LeadsTo block block) →
        ∀ source ∈ flow.shape.order, ∀ target, flow.LeadsTo source target →
          flow.shape.order.idxOf source < flow.shape.order.idxOf target) := by
  have computed : (build ownLoop [⟨0, 1, 1, none⟩] 7).isOk = true := by decide +kernel
  cases built : build ownLoop [⟨0, 1, 1, none⟩] 7 with
  | error failure =>
    rw [built] at computed
    cases computed
  | ok flow => exact ⟨flow, rfl, build_backward_iff_cycle built⟩

end ControlFlow

end Bytescript.Flow
