import Bytescript.Flow.Analysis
import Bytescript.Proofs.Flow.Walk
import Mathlib.Data.List.Basic

/-!
# The order of the nodes

The reverse postorder of a graph lists every node that can be reached once, the entry first, and
gives every other node an edge from a node before it.  A walk that may not enter a node marks what
can be reached without it, which is how dominance is decided.
-/

set_option autoImplicit false

namespace Bytescript.Flow.Graph

variable {graph : Graph}

/-! ## Walks from the entry -/

theorem card_free_le_size {walk : Walk} (size : walk.marked.size = graph.size) :
    walk.free.card ≤ graph.size := by
  refine (Finset.card_filter_le _ _).trans ?_
  rw [Finset.card_range, size]

theorem size_fresh : (Walk.fresh graph).marked.size = graph.size :=
  Array.size_replicate

theorem isMarked_fresh_eq_false {node : Nat} :
    (Walk.fresh graph).isMarked node = false ↔ node < graph.size := by
  rw [← Bool.not_eq_true, Walk.isMarked_fresh, not_le]

/-- A walk from the entry adds exactly the nodes that unmarked nodes lead to. -/
theorem mem_added_iff {walk : Walk} {added : List Nat} (size : walk.marked.size = graph.size)
    (extended : graph.Extends walk added (graph.walkFrom graph.size walk 0))
    (here : (graph.walkFrom graph.size walk 0).isMarked 0 = true)
    (led : graph.LedFrom 0 added) {node : Nat} :
    node ∈ added ↔ graph.Reaches (fun node => walk.isMarked node = false) node := by
  have inside : ∀ other, walk.isMarked other = false → other < graph.size := by
    intro other unmarked
    rw [← size]
    exact Finset.mem_range.mp (Finset.mem_filter.mp (Walk.mem_free.mpr unmarked)).1
  constructor
  · intro member
    rcases led with rfl | ⟨rest, rfl, led⟩
    · cases member
    · have entry : graph.Reaches (fun node => walk.isMarked node = false) 0 :=
        .entry (inside 0 (extended.unmarked 0 List.mem_cons_self))
          (extended.unmarked 0 List.mem_cons_self)
      rcases List.mem_cons.mp member with rfl | member
      · exact entry
      · refine led.reaches (by simpa using entry) ?_ node member
        exact fun other later => extended.unmarked other (.tail _ later)
  · intro reaches
    induction reaches with
    | entry _ unmarked =>
      refine ((extended.marked 0).mp here).resolve_left ?_
      simp [unmarked]
    | step _ edge unmarked ih =>
      refine ((extended.marked _).mp (extended.closed _ ih _ edge.1)).resolve_left ?_
      simp [unmarked]

/-! ## Reverse postorder -/

theorem reversePostorder_extends (graph : Graph) :
    graph.Extends (.fresh graph) graph.reversePostorder
        (graph.walkFrom graph.size (.fresh graph) 0) ∧
      (graph.walkFrom graph.size (.fresh graph) 0).isMarked 0 = true ∧
      graph.LedFrom 0 graph.reversePostorder := by
  obtain ⟨added, extended, here, led⟩ :=
    walkFrom_extends graph.size (.fresh graph) 0 size_fresh (card_free_le_size size_fresh)
  have same : graph.reversePostorder = added := by
    rw [reversePostorder, extended.done]
    exact List.append_nil added
  rw [same]
  exact ⟨extended, here, led⟩

theorem reversePostorder_nodup (graph : Graph) : graph.reversePostorder.Nodup :=
  (reversePostorder_extends graph).1.nodup

theorem mem_reversePostorder {node : Nat} :
    node ∈ graph.reversePostorder ↔ graph.Reachable node := by
  obtain ⟨extended, here, led⟩ := reversePostorder_extends graph
  rw [mem_added_iff size_fresh extended here led]
  constructor
  · exact Reaches.reachable
  · intro reachable
    induction reachable with
    | entry nonempty _ => exact .entry nonempty (isMarked_fresh_eq_false.mpr nonempty)
    | step _ edge _ ih => exact .step ih edge (isMarked_fresh_eq_false.mpr edge.2)

/-- The entry stands first. -/
theorem idxOf_entry : graph.reversePostorder.idxOf 0 = 0 := by
  rcases (reversePostorder_extends graph).2.2 with empty | ⟨rest, order, _⟩
  · rw [empty, List.idxOf_nil]
  · rw [order, List.idxOf_cons_self]

/-- Every other node has an edge from a node before it. -/
theorem exists_earlier_source {node : Nat} (member : node ∈ graph.reversePostorder)
    (later : node ≠ 0) :
    ∃ source ∈ graph.reversePostorder, graph.Edge source node ∧
      graph.reversePostorder.idxOf source < graph.reversePostorder.idxOf node := by
  rcases (reversePostorder_extends graph).2.2 with empty | ⟨rest, order, led⟩
  · rw [empty] at member
    cases member
  · rw [order] at member ⊢
    obtain ⟨front, back, rfl⟩ :=
      List.append_of_mem ((List.mem_cons.mp member).resolve_left later)
    obtain ⟨source, early, edge⟩ := led.source rfl
    have early : source ∈ 0 :: front := by
      rcases early with early | early
      · exact List.mem_singleton.mp early ▸ List.mem_cons_self
      · exact .tail _ early
    have unlisted : node ∉ 0 :: front := by
      have distinct := reversePostorder_nodup graph
      rw [order, ← List.cons_append, List.nodup_append] at distinct
      exact fun here => distinct.2.2 node here node List.mem_cons_self rfl
    rw [← List.cons_append]
    refine ⟨source, List.mem_append_left _ early, edge, ?_⟩
    rw [List.idxOf_append_of_mem early, List.idxOf_append_of_notMem unlisted]
    exact (List.idxOf_lt_length_of_mem early).trans_le (Nat.le_add_right _ _)

/-! ## Nodes without a node -/

/-- What a walk that avoids a node marks, apart from that node. -/
theorem marksAvoiding_iff {avoided node : Nat} (other : node ≠ avoided)
    (inside : node < graph.size) :
    (graph.marksAvoiding avoided).getD node true = true ↔
      graph.Reaches (fun node => node ≠ avoided) node := by
  have size : ((Walk.fresh graph).mark avoided).marked.size = graph.size :=
    Walk.size_mark.trans size_fresh
  obtain ⟨added, extended, here, led⟩ :=
    walkFrom_extends graph.size ((Walk.fresh graph).mark avoided) 0 size (card_free_le_size size)
  have unmarked : ∀ node, ((Walk.fresh graph).mark avoided).isMarked node = false ↔
      node < graph.size ∧ node ≠ avoided := by
    intro node
    rw [← Bool.not_eq_true, Walk.isMarked_mark, Walk.isMarked_fresh, not_or, not_le]
  refine (extended.marked node).trans ?_
  rw [mem_added_iff size extended here led]
  refine ⟨?_, fun reaches => .inr ?_⟩
  · rintro (before | reaches)
    · have := (unmarked node).mpr ⟨inside, other⟩
      rw [before] at this
      cases this
    · exact reaches.mono fun node free => ((unmarked node).mp free).2
  · induction reaches with
    | entry nonempty free => exact .entry nonempty ((unmarked 0).mpr ⟨nonempty, free⟩)
    | step before edge free ih =>
      exact .step (ih before.permitted before.lt_size) edge ((unmarked _).mpr ⟨edge.2, free⟩)

end Graph

/-! ## Positions -/

/-- Writing the positions of different nodes into a table, beginning at a given position. -/
theorem getD_foldl_positions (list : List Nat) (first : Nat) (table : Array (Option Nat))
    (distinct : list.Nodup) (inside : ∀ node ∈ list, node < table.size) (node : Nat) :
    ((list.zipIdx first).foldl
        (fun table (node, position) => table.setIfInBounds node (some position))
          table).getD node none
      = if node ∈ list then some (first + list.idxOf node) else table.getD node none := by
  induction list generalizing first table with
  | nil => simp
  | cons head rest ih =>
    rw [List.nodup_cons] at distinct
    rw [List.zipIdx_cons, List.foldl_cons, ih (first + 1) _ distinct.2]
    · by_cases here : node = head
      · subst here
        simp [distinct.1, inside node List.mem_cons_self]
      · rw [List.idxOf_cons_ne _ (Ne.symm here)]
        by_cases later : node ∈ rest
        · simp [later, Nat.add_comm, Nat.add_left_comm]
        · simp [later, here, Ne.symm here]
    · intro other member
      rw [Array.size_setIfInBounds]
      exact inside other (.tail _ member)

/-- The table of positions says where each node stands in an order. -/
theorem getD_positions {size : Nat} {order : List Nat} (distinct : order.Nodup)
    (inside : ∀ node ∈ order, node < size) (node : Nat) :
    (positions size order).getD node none =
      if node ∈ order then some (order.idxOf node) else none := by
  have table := getD_foldl_positions order 0 (Array.replicate size none) distinct
    (by simpa using inside) node
  rw [Nat.zero_add] at table
  rw [positions, table]
  by_cases member : node ∈ order
  · rw [if_pos member, if_pos member]
  · rw [if_neg member, if_neg member, Array.getD_eq_getD_getElem?, Array.getElem?_replicate]
    split <;> rfl

end Bytescript.Flow
