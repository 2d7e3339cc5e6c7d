import Bytescript.Proofs.Flow.Backward
import Bytescript.Proofs.Flow.Build

/-!
# Reducible flows

Whether a flow is reducible is decided by the edges that go back in one order of its blocks.  What
is decided does not depend on that order: a flow is reducible exactly if no cycle is left of it
without the edges that lead to a block which dominates their source.

If all edges that go back are such edges, the others go forward and close no cycle.  If one of
them is not, it closes a cycle with edges that go forward, none of which leads to a dominator.
-/

set_option autoImplicit false

namespace Bytescript.Flow

open Bytescript.Flow.Graph

/-! ## Edges that do not lead to a dominator -/

namespace Graph

/-- An edge from a node that can be reached, unless it leads to a node that dominates its
source. -/
def Onward (graph : Graph) (source target : Nat) : Prop :=
  graph.Reachable source ∧ graph.Edge source target ∧ ¬ graph.Dominates target source

/-- No cycle is left without the edges that lead to dominators of their sources. -/
def OnwardAcyclic (graph : Graph) : Prop :=
  ∀ node, ¬ Relation.TransGen graph.Onward node node

end Graph

namespace Analysis

variable {graph : Graph} {source target : Nat}

/-- A graph is called reducible if edges only go back to dominators of their sources. -/
theorem reducible_iff : (Analysis.of graph).reducible = true ↔
    ∀ source target, graph.Edge source target →
      (Analysis.of graph).isBackward source target = true → graph.Dominates target source := by
  refine ⟨fun reducible source target => dominates_of_isBackward reducible, fun all => ?_⟩
  show ((graph.edges.filter fun edge => (Analysis.of graph).isReachable edge.1).filter
    fun edge => (Analysis.of graph).isBackward edge.1 edge.2).all
      (fun edge => (Analysis.of graph).dominates edge.2 edge.1) = true
  refine List.all_eq_true.mpr fun ⟨source, target⟩ member => ?_
  obtain ⟨member, back⟩ := List.mem_filter.mp member
  have edge := mem_edges.mp (List.mem_filter.mp member).1
  have inside := (isBackward_iff.mp back).2.1.lt_size
  exact dominates_iff.mpr (all source target ⟨edge, inside⟩ back)

/-- An edge that goes forward does not lead to a dominator of its source. -/
theorem Forward.onward (forward : Forward graph source target) : graph.Onward source target :=
  ⟨forward.1, forward.2.1, fun dominates =>
    absurd dominates.place_le (not_le.mpr forward.2.2)⟩

/-- Unless edges go back elsewhere, edges that do not lead to dominators go forward. -/
theorem forward_of_onward (reducible : (Analysis.of graph).reducible = true)
    (onward : graph.Onward source target) : graph.place source < graph.place target := by
  obtain ⟨reachable, edge, free⟩ := onward
  refine (forward_of_not_isBackward reachable edge ?_).2.2
  rw [← Bool.not_eq_true]
  exact fun back => free (reducible_iff.mp reducible source target edge back)

theorem place_lt_of_onward_path (reducible : (Analysis.of graph).reducible = true)
    (path : Relation.TransGen graph.Onward source target) :
    graph.place source < graph.place target := by
  induction path with
  | single onward => exact forward_of_onward reducible onward
  | tail _ onward ih => exact ih.trans (forward_of_onward reducible onward)

theorem reducible_iff_onwardAcyclic :
    (Analysis.of graph).reducible = true ↔ graph.OnwardAcyclic := by
  constructor
  · intro reducible node cycle
    exact lt_irrefl _ (place_lt_of_onward_path reducible cycle)
  · intro acyclic
    refine reducible_iff.mpr fun source target edge back => ?_
    by_contra free
    obtain ⟨reachable, _, behind⟩ := isBackward_iff.mp back
    have path := Relation.ReflTransGen.mono (fun _ _ => Forward.onward) _ _
      (forward_of_back reachable edge behind)
    exact acyclic source (Relation.TransGen.head' ⟨reachable, edge, free⟩ path)

end Analysis

/-! ## Graphs with the same edges -/

namespace Graph

variable {graph other : Graph} {allowed : Nat → Prop} {node : Nat}

theorem Reaches.of_edges (size : graph.size = other.size)
    (edges : ∀ {source target}, graph.Edge source target → other.Edge source target)
    (reaches : graph.Reaches allowed node) : other.Reaches allowed node := by
  induction reaches with
  | entry nonempty here => exact .entry (size ▸ nonempty) here
  | step _ edge here ih => exact .step ih (edges edge) here

theorem reaches_congr (size : graph.size = other.size)
    (edges : ∀ source target, graph.Edge source target ↔ other.Edge source target) :
    graph.Reaches allowed node ↔ other.Reaches allowed node :=
  ⟨.of_edges size (edges _ _).mp, .of_edges size.symm (edges _ _).mpr⟩

/-- Only the edges of a graph decide whether it is reducible, not the order in which they are
listed. -/
theorem reducible_congr (size : graph.size = other.size)
    (edges : ∀ source target, graph.Edge source target ↔ other.Edge source target) :
    (Analysis.of graph).reducible = (Analysis.of other).reducible := by
  have onward : graph.Onward = other.Onward := by
    funext source target
    simp only [Onward, Dominates, reaches_congr size edges, edges]
  rw [Bool.eq_iff_iff, Analysis.reducible_iff_onwardAcyclic, Analysis.reducible_iff_onwardAcyclic,
    OnwardAcyclic, OnwardAcyclic, onward]

end Graph

/-! ## Flows -/

namespace ControlFlow

/-- A block goes on to another one, with or without an exception. -/
def LeadsTo (flow : ControlFlow) (source target : Nat) : Prop :=
  target ∈ flow.next source ∨ ∃ handler ∈ flow.covering source, handler.target = target

theorem BuiltFrom.edge_iff {flow : ControlFlow} {instructions : List Placed}
    {table : List ExceptionEntry} {codeLength : Nat}
    (builtFrom : flow.BuiltFrom instructions table codeLength) {source target : Nat} :
    flow.shape.graph.Edge source target ↔ flow.LeadsTo source target := by
  have listed : target ∈ flow.shape.graph.next source ↔ flow.LeadsTo source target := by
    rw [builtFrom.edges, edgesOf, List.mem_append, List.mem_eraseDups, List.mem_map, LeadsTo]
  rw [Edge, listed, and_iff_left_iff_imp, builtFrom.size]
  rintro (next | ⟨handler, covering, rfl⟩)
  · exact builtFrom.next_lt next
  · exact builtFrom.covering_lt covering

/-- The graph of a flow has the edges of its blocks.  It is called reducible exactly if they form
no cycle without those that lead to a dominator of their source, and so is any other graph with
the same edges. -/
theorem reducible_iff_acyclic {instructions : List Placed} {table : List ExceptionEntry}
    {codeLength : Nat} {flow : ControlFlow}
    (built : build instructions table codeLength = .ok flow) :
    (∀ source target, flow.shape.graph.Edge source target ↔ flow.LeadsTo source target) ∧
      (flow.shape.reducible = true ↔ flow.shape.graph.OnwardAcyclic) ∧
      ∀ other : Graph, other.size = flow.size →
        (∀ source target, target ∈ other.next source ↔ flow.LeadsTo source target) →
          (Analysis.of other).reducible = flow.shape.reducible := by
  have builtFrom := build_builtFrom built
  have edges (source target : Nat) :
      flow.shape.graph.Edge source target ↔ flow.LeadsTo source target := builtFrom.edge_iff
  refine ⟨edges, ?_, fun other size same => ?_⟩
  · rw [builtFrom.shape]
    exact Analysis.reducible_iff_onwardAcyclic
  · rw [builtFrom.shape]
    refine reducible_congr (size.trans builtFrom.size.symm) fun source target => ?_
    rw [edges, Edge, same, and_iff_left_iff_imp, size, ← builtFrom.size]
    exact fun leads => ((edges source target).mpr leads).2

/-- A loop that can be entered at two places, by the branch at 1 and by the one at 4. -/
def twoEntriesLoop : List Placed :=
  [⟨0, 0x1a, .load .int 0⟩, ⟨1, 0x99, .ifZero .equal 7⟩, ⟨4, 0xa7, .goto 7⟩,
    ⟨7, 0x1a, .load .int 0⟩, ⟨8, 0x99, .ifZero .equal 4⟩, ⟨11, 0xb1, .leave none⟩]

theorem twoEntriesLoop_reducible_iff_acyclic :
    ∃ flow, build twoEntriesLoop [⟨4, 7, 11, none⟩] 12 = .ok flow ∧
      (∀ source target, flow.shape.graph.Edge source target ↔ flow.LeadsTo source target) ∧
      (flow.shape.reducible = true ↔ flow.shape.graph.OnwardAcyclic) ∧
      ∀ other : Graph, other.size = flow.size →
        (∀ source target, target ∈ other.next source ↔ flow.LeadsTo source target) →
          (Analysis.of other).reducible = flow.shape.reducible := by
  have computed : (build twoEntriesLoop [⟨4, 7, 11, none⟩] 12).isOk = true := by decide +kernel
  cases built : build twoEntriesLoop [⟨4, 7, 11, none⟩] 12 with
  | error failure =>
    rw [built] at computed
    cases computed
  | ok flow => exact ⟨flow, rfl, reducible_iff_acyclic built⟩

end ControlFlow

end Bytescript.Flow
