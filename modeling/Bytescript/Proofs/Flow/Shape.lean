import Bytescript.Proofs.Flow.Dominance
import Mathlib.Data.List.Perm.Subperm

/-!
# What the analysis of a graph says

The tables of an analysis are read here once: which nodes can be reached, which edges go back,
which nodes dominate which, where loops begin, and where paths meet.  After this module the shape
of a graph is spoken of in terms of paths and of the order of its nodes.
-/

set_option autoImplicit false

namespace Bytescript.Flow.Analysis

open Bytescript.Flow.Graph

variable {graph : Graph} {node source target : Nat}

/-! ## Order and reachability -/

theorem getD_numbers :
    (Analysis.of graph).numbers.getD node none =
      if node ∈ graph.reversePostorder then some (graph.place node) else none :=
  getD_positions (reversePostorder_nodup graph)
    (fun _ member => (mem_reversePostorder.mp member).lt_size) node

theorem isReachable_iff : (Analysis.of graph).isReachable node = true ↔ graph.Reachable node := by
  rw [isReachable, getD_numbers, ← mem_reversePostorder]
  by_cases member : node ∈ graph.reversePostorder
  · simp [member]
  · simp [member]

/-- An edge goes back if its target does not stand behind its source. -/
theorem isBackward_iff :
    (Analysis.of graph).isBackward source target = true ↔
      graph.Reachable source ∧ graph.Reachable target ∧
        graph.place target ≤ graph.place source := by
  rw [isBackward, goesBack, getD_numbers, getD_numbers, ← mem_reversePostorder,
    ← mem_reversePostorder]
  by_cases here : source ∈ graph.reversePostorder
  · by_cases there : target ∈ graph.reversePostorder
    · simp [here, there]
    · simp [here, there]
  · simp [here]

/-- The order lists the nodes by their places. -/
theorem order_pairwise :
    graph.reversePostorder.Pairwise fun one other => graph.place one < graph.place other := by
  rw [List.pairwise_iff_getElem]
  intro i j hi hj less
  have distinct := reversePostorder_nodup graph
  rw [place, place, distinct.idxOf_getElem, distinct.idxOf_getElem]
  exact less

/-! ## Tables by node -/

theorem getD_map_range {α : Type} (size : Nat) (entry : Nat → α) (default : α) (node : Nat) :
    ((Array.range size).map entry).getD node default =
      if node < size then entry node else default := by
  rw [Array.getD_eq_getD_getElem?, Array.getElem?_map]
  by_cases inside : node < size
  · simp [inside]
  · simp [inside]

/-! ## Dominance -/

theorem dominates_iff {dominator : Nat} :
    (Analysis.of graph).dominates dominator node = true ↔ graph.Dominates dominator node := by
  have table : (Analysis.of graph).dominates dominator node =
      ((Analysis.of graph).isReachable node && (dominator = node ||
        !((if dominator < graph.size then graph.marksAvoiding dominator else #[]).getD node
          true))) := by
    rw [← getD_map_range graph.size graph.marksAvoiding #[] dominator]
    rfl
  rw [table, Bool.and_eq_true, isReachable_iff]
  apply and_congr_right
  intro reachable
  by_cases same : dominator = node
  · subst same
    simpa using (Dominates.refl reachable).2
  · by_cases inside : dominator < graph.size
    · have marks := marksAvoiding_iff (Ne.symm same) reachable.lt_size
      rw [if_pos inside, ← not_iff_not.mpr marks]
      simp [same]
    · rw [if_neg inside]
      have avoids : graph.Reaches (fun other => other ≠ dominator) node := by
        refine reachable.inside.mono ?_
        rintro other small rfl
        exact inside small
      simp [same, avoids]

theorem dominatesBy_iff {dominator : Nat} :
    dominatesBy (Analysis.of graph).numbers (Analysis.of graph).avoiding dominator node = true ↔
      graph.Dominates dominator node :=
  dominates_iff

/-- The nodes that strictly dominate a node, by the tables of an analysis. -/
def strictDominators (graph : Graph) (node : Nat) : List Nat :=
  graph.reversePostorder.filter fun other => other ≠ node &&
    dominatesBy (Analysis.of graph).numbers (Analysis.of graph).avoiding other node

theorem mem_strictDominators {other : Nat} :
    other ∈ strictDominators graph node ↔ graph.StrictlyDominates other node := by
  rw [strictDominators, List.mem_filter, Bool.and_eq_true, dominatesBy_iff, mem_reversePostorder]
  simp only [decide_eq_true_eq]
  exact ⟨fun here => ⟨here.2.2, here.2.1⟩, fun here => ⟨here.1.reachable, here.2, here.1⟩⟩

theorem strictDominators_pairwise (graph : Graph) (node : Nat) :
    (strictDominators graph node).Pairwise fun one other => graph.place one < graph.place other :=
  order_pairwise.filter _

theorem immediateDominator_eq (inside : node < graph.size) :
    (Analysis.of graph).immediateDominator node = (strictDominators graph node).getLast? := by
  have table : (Analysis.of graph).immediateDominator node =
      if node < graph.size then (strictDominators graph node).getLast? else none :=
    getD_map_range ..
  rw [table, if_pos inside]

theorem lt_of_immediateDominator {dominator : Nat}
    (immediate : (Analysis.of graph).immediateDominator node = some dominator) :
    node < graph.size := by
  have table : (Analysis.of graph).immediateDominator node =
      if node < graph.size then (strictDominators graph node).getLast? else none :=
    getD_map_range ..
  rw [table] at immediate
  split at immediate
  next inside => exact inside
  · cases immediate

/-- The immediate dominator is the last of all other nodes that dominate a node. -/
theorem immediateDominator_iff {dominator : Nat} :
    (Analysis.of graph).immediateDominator node = some dominator ↔
      graph.StrictlyDominates dominator node ∧
        ∀ other, graph.StrictlyDominates other node →
          graph.place other ≤ graph.place dominator := by
  have ordered := strictDominators_pairwise graph node
  constructor
  · intro immediate
    rw [immediateDominator_eq (lt_of_immediateDominator immediate)] at immediate
    obtain ⟨front, listed⟩ := List.getLast?_eq_some_iff.mp immediate
    rw [listed] at ordered
    refine ⟨mem_strictDominators.mp (by simp [listed]), fun other strict => ?_⟩
    rcases List.mem_append.mp (listed ▸ mem_strictDominators.mpr strict) with early | here
    · exact ((List.pairwise_append.mp ordered).2.2 other early dominator (by simp)).le
    · rw [List.mem_singleton.mp here]
  · rintro ⟨strict, latest⟩
    rw [immediateDominator_eq strict.1.1.lt_size]
    have member := mem_strictDominators.mpr strict
    obtain ⟨front, last, listed⟩ : ∃ front last, strictDominators graph node = front ++ [last] :=
      ⟨_, _, (List.dropLast_append_getLast (List.ne_nil_of_mem member)).symm⟩
    rw [listed] at ordered member ⊢
    rw [List.getLast?_concat]
    rcases List.mem_append.mp member with early | here
    · have before := (List.pairwise_append.mp ordered).2.2 dominator early last (by simp)
      have after := latest last (mem_strictDominators.mp (by simp [listed]))
      omega
    · rw [List.mem_singleton.mp here]

/-- Every node but the entry has an immediate dominator. -/
theorem exists_immediateDominator (reachable : graph.Reachable node) (later : node ≠ 0) :
    ∃ dominator, (Analysis.of graph).immediateDominator node = some dominator := by
  have member : 0 ∈ strictDominators graph node :=
    mem_strictDominators.mpr ⟨dominates_entry reachable, Ne.symm later⟩
  rw [immediateDominator_eq reachable.lt_size]
  exact ⟨_, List.getLast?_eq_some_getLast (List.ne_nil_of_mem member)⟩

/-- Whatever else dominates a node dominates its immediate dominator. -/
theorem dominates_immediateDominator {dominator other : Nat}
    (immediate : (Analysis.of graph).immediateDominator node = some dominator)
    (strict : graph.StrictlyDominates other node) : graph.Dominates other dominator := by
  obtain ⟨above, latest⟩ := immediateDominator_iff.mp immediate
  exact strict.1.chain above.1 (latest other strict)

/-- Different nodes with the same immediate dominator have nothing below them in common. -/
theorem eq_of_immediateDominator {one other dominator : Nat}
    (here : (Analysis.of graph).immediateDominator one = some dominator)
    (there : (Analysis.of graph).immediateDominator other = some dominator)
    (above : graph.Dominates one node) (above' : graph.Dominates other node) : one = other := by
  -- One that dominates the other would dominate the immediate dominator of both.
  have ordered {first second : Nat}
      (here : (Analysis.of graph).immediateDominator first = some dominator)
      (there : (Analysis.of graph).immediateDominator second = some dominator)
      (dominates : graph.Dominates first second) : first = second := by
    by_contra different
    have upper := (immediateDominator_iff.mp here).1
    have lower := dominates_immediateDominator there ⟨dominates, different⟩
    exact upper.2 (upper.1.antisymm lower)
  rcases le_total (graph.place one) (graph.place other) with before | behind
  · exact ordered here there (above.chain above' before)
  · exact (ordered there here (above'.chain above behind)).symm

theorem mem_children {parent child : Nat} :
    child ∈ (Analysis.of graph).children parent ↔
      (Analysis.of graph).immediateDominator child = some parent := by
  rw [children, List.mem_filter, decide_eq_true_eq]
  apply and_iff_right_of_imp
  intro immediate
  exact mem_reversePostorder.mpr (immediateDominator_iff.mp immediate).1.1.1

theorem children_pairwise (graph : Graph) (parent : Nat) :
    ((Analysis.of graph).children parent).Pairwise fun one other =>
      graph.place one < graph.place other :=
  order_pairwise.filter _

/-! ## Edges -/

theorem mem_edges : (source, target) ∈ graph.edges ↔ target ∈ graph.next source := by
  rw [edges, List.mem_flatMap]
  constructor
  · rintro ⟨other, _, member⟩
    obtain ⟨_, here, same⟩ := List.mem_map.mp member
    cases same
    exact here
  · intro member
    have inside : source < graph.size := by
      by_contra beyond
      have none : graph.successors[source]? = none :=
        Array.getElem?_eq_none (Nat.not_lt.mp beyond)
      rw [next, Array.getD_eq_getD_getElem?, none] at member
      cases member
    exact ⟨source, List.mem_range.mpr inside, List.mem_map_of_mem member⟩

/-- A loop begins where an edge leads back to. -/
theorem isLoopHeader_iff :
    (Analysis.of graph).isLoopHeader node = true ↔
      ∃ source, graph.Edge source node ∧ (Analysis.of graph).isBackward source node = true := by
  have table : (Analysis.of graph).isLoopHeader node =
      if node < graph.size then
        ((graph.edges.filter fun edge => (Analysis.of graph).isReachable edge.1).filter
          fun edge => (Analysis.of graph).isBackward edge.1 edge.2).any fun edge => edge.2 = node
      else false := getD_map_range ..
  rw [table]
  constructor
  · intro any
    split at any
    · obtain ⟨⟨source, target⟩, member, same⟩ := List.any_eq_true.mp any
      obtain rfl : target = node := of_decide_eq_true same
      obtain ⟨member, back⟩ := List.mem_filter.mp member
      obtain ⟨member, _⟩ := List.mem_filter.mp member
      exact ⟨source, ⟨mem_edges.mp member, ‹_›⟩, back⟩
    · cases any
  · rintro ⟨source, edge, back⟩
    rw [if_pos edge.2]
    refine List.any_eq_true.mpr ⟨(source, node), ?_, decide_eq_true rfl⟩
    refine List.mem_filter.mpr ⟨List.mem_filter.mpr ⟨mem_edges.mpr edge.1, ?_⟩, back⟩
    exact isReachable_iff.mpr (isBackward_iff.mp back).1

/-- In a reducible graph edges only go back to nodes that dominate their sources. -/
theorem dominates_of_isBackward (reducible : (Analysis.of graph).reducible = true)
    (edge : graph.Edge source target)
    (back : (Analysis.of graph).isBackward source target = true) :
    graph.Dominates target source := by
  have all : ((graph.edges.filter fun edge => (Analysis.of graph).isReachable edge.1).filter
      fun edge => (Analysis.of graph).isBackward edge.1 edge.2).all
        (fun edge => (Analysis.of graph).dominates edge.2 edge.1) = true := reducible
  refine dominates_iff.mp (List.all_eq_true.mp all (source, target) ?_)
  refine List.mem_filter.mpr ⟨List.mem_filter.mpr ⟨mem_edges.mpr edge.1, ?_⟩, back⟩
  exact isReachable_iff.mpr (isBackward_iff.mp back).1

/-! ## Merges -/

/-- An edge that goes forward from a node that can be reached. -/
def Forward (graph : Graph) (source target : Nat) : Prop :=
  graph.Reachable source ∧ graph.Edge source target ∧ graph.place source < graph.place target

theorem forward_of_not_isBackward (reachable : graph.Reachable source)
    (edge : graph.Edge source target)
    (ahead : (Analysis.of graph).isBackward source target = false) :
    Forward graph source target := by
  refine ⟨reachable, edge, ?_⟩
  rw [← Bool.not_eq_true, isBackward_iff] at ahead
  by_contra behind
  exact ahead ⟨reachable, .step reachable edge trivial, not_lt.mp behind⟩

theorem Forward.isBackward_eq_false (forward : Forward graph source target) :
    (Analysis.of graph).isBackward source target = false := by
  rw [← Bool.not_eq_true, isBackward_iff]
  exact fun back => absurd forward.2.2 (not_lt.mpr back.2.2)

/-- The forward edges to a node, with as many copies of each as the graph has. -/
def forwardEdges (graph : Graph) (target : Nat) : List (Nat × Nat) :=
  ((graph.edges.filter fun edge => (Analysis.of graph).isReachable edge.1).filter
    fun edge => !(Analysis.of graph).isBackward edge.1 edge.2).filter fun edge => edge.2 = target

theorem mem_forwardEdges (forward : Forward graph source target) :
    (source, target) ∈ forwardEdges graph target := by
  refine List.mem_filter.mpr ⟨List.mem_filter.mpr ⟨List.mem_filter.mpr ⟨?_, ?_⟩, ?_⟩, ?_⟩
  · exact mem_edges.mpr forward.2.1.1
  · exact isReachable_iff.mpr forward.1
  · simpa using forward.isBackward_eq_false
  · exact decide_eq_true rfl

theorem isMerge_of_length (inside : node < graph.size)
    (several : 2 ≤ (forwardEdges graph node).length) :
    (Analysis.of graph).isMerge node = true := by
  have table : (Analysis.of graph).forwardCounts.getD node 0 =
      if node < graph.size then (forwardEdges graph node).length else 0 := by
    rw [forwardEdges, ← List.countP_eq_length_filter]
    exact getD_map_range ..
  rw [isMerge, table, if_pos inside]
  exact decide_eq_true several

/-- Forward edges from two nodes make a merge. -/
theorem isMerge_of_sources (one : Forward graph source node) {other : Nat}
    (two : Forward graph other node) (different : source ≠ other) :
    (Analysis.of graph).isMerge node = true := by
  refine isMerge_of_length one.2.1.2 ?_
  have distinct : [(source, node), (other, node)].Nodup := by simp [different]
  exact (distinct.subperm (by simp [mem_forwardEdges one, mem_forwardEdges two])).length_le

/-- Two forward edges from one node make a merge. -/
theorem isMerge_of_count (forward : Forward graph source node)
    (twice : 2 ≤ (graph.next source).count node) : (Analysis.of graph).isMerge node = true := by
  refine isMerge_of_length forward.2.1.2 (twice.trans ?_)
  have inside : source ∈ List.range graph.size := List.mem_range.mpr forward.1.lt_size
  have part : ((graph.next source).map fun target => (source, target)).Sublist graph.edges := by
    rw [edges, List.flatMap_def]
    exact List.sublist_flatten_of_mem (List.mem_map_of_mem inside)
  rw [forwardEdges, List.filter_filter, List.filter_filter, ← List.countP_eq_length_filter]
  refine le_trans (le_of_eq ?_) (part.countP_le)
  rw [List.countP_map, List.count]
  apply List.countP_congr
  intro other _
  by_cases same : other = node
  · subst same
    simp [forward.isBackward_eq_false, isReachable_iff.mpr forward.1]
  · simp [same]

/-- A node that is no merge is dominated by the source of the edge that leads forward to it. -/
theorem immediateDominator_of_not_isMerge (reducible : (Analysis.of graph).reducible = true)
    (forward : Forward graph source node) (single : (Analysis.of graph).isMerge node = false) :
    (Analysis.of graph).immediateDominator node = some source := by
  have only : ∀ other, Forward graph other node → other = source := by
    intro other ahead
    by_contra different
    rw [isMerge_of_sources ahead forward different] at single
    cases single
  obtain ⟨reached, edge, earlier⟩ := forward
  have reachable : graph.Reachable node := .step reached edge trivial
  have later : node ≠ 0 := by
    rintro rfl
    rw [place_entry] at earlier
    exact Nat.not_lt_zero _ earlier
  have different : source ≠ node := by
    rintro rfl
    exact lt_irrefl _ earlier
  refine immediateDominator_iff.mpr ⟨⟨⟨reachable, fun reaches => ?_⟩, different⟩, ?_⟩
  · -- The path would arrive over an edge that goes back, from a node not dominated by this one.
    rcases reaches.first_arrival node with avoids | start | ⟨other, step, before⟩
    · exact avoids.permitted.2 rfl
    · exact later start
    · cases direction : (Analysis.of graph).isBackward other node with
      | true =>
        refine (dominates_of_isBackward reducible step direction).2 (before.mono ?_)
        exact fun _ here => here.2
      | false =>
        have same := only other (forward_of_not_isBackward before.reachable step direction)
        exact before.permitted.1 same
  · exact fun other strict => (strict.1.of_edge reached edge strict.2).place_le

end Bytescript.Flow.Analysis
