import Bytescript.Flow.Graph
import Mathlib.Data.Finset.Card

/-!
# What a depth first walk finds

A walk that may take as many steps down as there are nodes left to enter lists exactly the nodes
that it can reach: every node that it enters has all its successors marked in the end, and every
node but the first one is listed behind a node with an edge to it.

The second fact is what makes the list useful as an order.  It says that a path of edges that go
forward in the list leads to every node.
-/

set_option autoImplicit false

namespace Bytescript.Flow.Graph

/-! ## Edges and paths -/

/-- An edge between two nodes. -/
def Edge (graph : Graph) (source target : Nat) : Prop :=
  target ∈ graph.next source ∧ target < graph.size

/-- The nodes that paths from the entry lead to, if they only touch some nodes. -/
inductive Reaches (graph : Graph) (allowed : Nat → Prop) : Nat → Prop where
  | entry : 0 < graph.size → allowed 0 → Reaches graph allowed 0
  | step {source target : Nat} :
      Reaches graph allowed source → graph.Edge source target → allowed target →
        Reaches graph allowed target

/-- The nodes that can be reached at all. -/
abbrev Reachable (graph : Graph) : Nat → Prop := graph.Reaches fun _ => True

variable {graph : Graph} {allowed : Nat → Prop}

theorem Reaches.lt_size {node : Nat} (reaches : graph.Reaches allowed node) :
    node < graph.size := by
  cases reaches with
  | entry nonempty _ => exact nonempty
  | step _ edge _ => exact edge.2

theorem Reaches.permitted {node : Nat} (reaches : graph.Reaches allowed node) : allowed node := by
  cases reaches with
  | entry _ here => exact here
  | step _ _ here => exact here

theorem Reaches.mono {more : Nat → Prop} (weaker : ∀ node, allowed node → more node) {node : Nat}
    (reaches : graph.Reaches allowed node) : graph.Reaches more node := by
  induction reaches with
  | entry nonempty here => exact .entry nonempty (weaker _ here)
  | step _ edge here ih => exact .step ih edge (weaker _ here)

theorem Reaches.reachable {node : Nat} (reaches : graph.Reaches allowed node) :
    graph.Reachable node :=
  reaches.mono fun _ _ => trivial

/-- Paths only touch nodes of the graph. -/
theorem Reaches.inside {node : Nat} (reaches : graph.Reaches allowed node) :
    graph.Reaches (fun node => node < graph.size) node := by
  induction reaches with
  | entry nonempty _ => exact .entry nonempty nonempty
  | step _ edge _ ih => exact .step ih edge edge.2

/-! ## Lists that edges lead through -/

/-- Every node of a list is the target of an edge from a node before it, where some nodes stand
before all of the list. -/
def Led (graph : Graph) : (before : List Nat) → List Nat → Prop
  | _, [] => True
  | before, node :: rest =>
    (∃ source ∈ before, graph.Edge source node) ∧ graph.Led (node :: before) rest

theorem Led.mono {before more list : List Nat} (subset : ∀ node ∈ before, node ∈ more)
    (led : graph.Led before list) : graph.Led more list := by
  induction list generalizing before more with
  | nil => exact trivial
  | cons node rest ih =>
    obtain ⟨⟨source, member, edge⟩, led⟩ := led
    refine ⟨⟨source, subset source member, edge⟩, ih ?_ led⟩
    intro other here
    rcases List.mem_cons.mp here with rfl | here
    · exact List.mem_cons_self
    · exact List.mem_cons_of_mem _ (subset other here)

theorem Led.append {before first second : List Nat} (here : graph.Led before first)
    (there : graph.Led before second) : graph.Led before (first ++ second) := by
  induction first generalizing before with
  | nil => exact there
  | cons node rest ih =>
    exact ⟨here.1, ih here.2 (there.mono fun _ member => List.mem_cons_of_mem _ member)⟩

/-- The node in front of a place in the list, or before all of it, with an edge to that place. -/
theorem Led.source {before list : List Nat} (led : graph.Led before list) {front back : List Nat}
    {node : Nat} (split : list = front ++ node :: back) :
    ∃ source, (source ∈ before ∨ source ∈ front) ∧ graph.Edge source node := by
  induction front generalizing before list with
  | nil =>
    subst split
    obtain ⟨source, member, edge⟩ := led.1
    exact ⟨source, .inl member, edge⟩
  | cons first front ih =>
    subst split
    obtain ⟨source, member, edge⟩ := ih led.2 rfl
    refine ⟨source, ?_, edge⟩
    rcases member with member | member
    · rcases List.mem_cons.mp member with rfl | member
      · exact .inr List.mem_cons_self
      · exact .inl member
    · exact .inr (List.mem_cons_of_mem _ member)

/-- What is led to from nodes that can be reached can be reached. -/
theorem Led.reaches {before list : List Nat} (led : graph.Led before list)
    (start : ∀ node ∈ before, graph.Reaches allowed node)
    (inside : ∀ node ∈ list, allowed node) : ∀ node ∈ list, graph.Reaches allowed node := by
  induction list generalizing before with
  | nil => intro node member; cases member
  | cons first rest ih =>
    obtain ⟨⟨source, member, edge⟩, led⟩ := led
    have here : graph.Reaches allowed first :=
      .step (start source member) edge (inside first List.mem_cons_self)
    have later := ih led
      (List.forall_mem_cons.mpr ⟨here, start⟩) (fun node at' => inside node (.tail _ at'))
    exact List.forall_mem_cons.mpr ⟨here, later⟩

/-! ## Marks -/

namespace Walk

/-- The nodes that may still be entered. -/
def free (walk : Walk) : Finset Nat :=
  (Finset.range walk.marked.size).filter fun node => walk.isMarked node = false

theorem mem_free {walk : Walk} {node : Nat} : node ∈ walk.free ↔ walk.isMarked node = false := by
  simp only [free, Finset.mem_filter, Finset.mem_range, and_iff_right_iff_imp]
  intro unmarked
  by_contra beyond
  simp [isMarked, Array.getD, beyond] at unmarked

theorem isMarked_mark {walk : Walk} {node other : Nat} :
    (walk.mark node).isMarked other = true ↔ walk.isMarked other = true ∨ other = node := by
  simp only [isMarked, mark, Array.getD_eq_getD_getElem?, Array.getElem?_setIfInBounds]
  by_cases same : node = other
  · subst same
    by_cases inside : node < walk.marked.size
    · simp [inside]
    · simp [inside]
  · simp [same, Ne.symm same]

theorem isMarked_finish {walk : Walk} {node other : Nat} :
    (walk.finish node).isMarked other = walk.isMarked other := rfl

theorem size_mark {walk : Walk} {node : Nat} : (walk.mark node).marked.size = walk.marked.size :=
  Array.size_setIfInBounds ..

theorem isMarked_fresh {node : Nat} :
    (fresh graph).isMarked node = true ↔ graph.size ≤ node := by
  simp only [fresh, isMarked, Array.getD_eq_getD_getElem?, Array.getElem?_replicate]
  split <;> simp_all

/-- Marking a node leaves one node less to enter. -/
theorem card_free_mark {walk : Walk} {node : Nat} (unmarked : walk.isMarked node = false) :
    (walk.mark node).free.card < walk.free.card := by
  refine Finset.card_lt_card (Finset.ssubset_iff_subset_ne.mpr ⟨?_, ?_⟩)
  · intro other member
    rw [mem_free, ← Bool.not_eq_true] at member ⊢
    exact fun marked => member (isMarked_mark.mpr (.inl marked))
  · intro same
    have member : node ∈ (walk.mark node).free := same ▸ mem_free.mpr unmarked
    rw [mem_free, ← Bool.not_eq_true] at member
    exact member (isMarked_mark.mpr (.inr rfl))

end Walk

/-! ## One walk after another -/

/-- What happens between two stages of a walk in which some nodes are entered and finished: these
are marked, and so are all their successors. -/
structure Extends (graph : Graph) (start : Walk) (added : List Nat) (stop : Walk) : Prop where
  size : stop.marked.size = start.marked.size
  done : stop.done = added ++ start.done
  marked : ∀ node, stop.isMarked node = true ↔ start.isMarked node = true ∨ node ∈ added
  unmarked : ∀ node ∈ added, start.isMarked node = false
  nodup : added.Nodup
  closed : ∀ node ∈ added, ∀ child ∈ graph.next node, stop.isMarked child = true

namespace Extends

variable {start middle stop : Walk} {added more : List Nat}

theorem refl (walk : Walk) : graph.Extends walk [] walk where
  size := rfl
  done := rfl
  marked := by simp
  unmarked := by simp
  nodup := List.nodup_nil
  closed := by simp

theorem trans (first : graph.Extends start added middle)
    (second : graph.Extends middle more stop) : graph.Extends start (more ++ added) stop where
  size := second.size.trans first.size
  done := by rw [second.done, first.done, List.append_assoc]
  marked node := by
    rw [second.marked, first.marked, List.mem_append]
    tauto
  unmarked node member := by
    rcases List.mem_append.mp member with later | earlier
    · rw [← Bool.not_eq_true]
      intro marked
      have := second.unmarked node later
      rw [(first.marked node).mpr (.inl marked)] at this
      cases this
    · exact first.unmarked node earlier
  nodup := by
    refine List.nodup_append.mpr ⟨second.nodup, first.nodup, ?_⟩
    rintro node later other earlier rfl
    have := second.unmarked node later
    rw [(first.marked node).mpr (.inr earlier)] at this
    cases this
  closed node member child edge := by
    rcases List.mem_append.mp member with later | earlier
    · exact second.closed node later child edge
    · exact (second.marked child).mpr (.inl (first.closed node earlier child edge))

/-- Nothing becomes free again. -/
theorem card_free_le (stage : graph.Extends start added stop) :
    stop.free.card ≤ start.free.card := by
  apply Finset.card_le_card
  intro node member
  rw [Walk.mem_free, ← Bool.not_eq_true] at member ⊢
  exact fun marked => member ((stage.marked node).mpr (.inl marked))

end Extends

/-! ## The walk itself -/

/-- What a walk adds that begins at a node: nothing, or the node and what it leads to. -/
def LedFrom (graph : Graph) (node : Nat) (added : List Nat) : Prop :=
  added = [] ∨ ∃ rest, added = node :: rest ∧ graph.Led [node] rest

/-- Walks from several nodes with edges from one node, one after the other. -/
theorem foldl_walkFrom {fuel : Nat} (parent : Nat)
    (ih : ∀ (walk : Walk) (node : Nat), walk.marked.size = graph.size → walk.free.card ≤ fuel →
      ∃ added, graph.Extends walk added (graph.walkFrom fuel walk node) ∧
        (graph.walkFrom fuel walk node).isMarked node = true ∧ graph.LedFrom node added)
    (children : List Nat) (subset : ∀ child ∈ children, child ∈ graph.next parent) (walk : Walk)
    (size : walk.marked.size = graph.size) (enough : walk.free.card ≤ fuel) :
    ∃ added,
      graph.Extends walk added
        (children.foldl (fun walk child => graph.walkFrom fuel walk child) walk) ∧
      (∀ child ∈ children,
        (children.foldl (fun walk child => graph.walkFrom fuel walk child) walk).isMarked child
          = true) ∧
      graph.Led [parent] added := by
  induction children generalizing walk with
  | nil => exact ⟨[], .refl walk, by simp, trivial⟩
  | cons child rest restIh =>
    obtain ⟨first, extended, here, led⟩ := ih walk child size enough
    obtain ⟨later, extended', there, led'⟩ :=
      restIh (fun other member => subset other (.tail _ member)) (graph.walkFrom fuel walk child)
        (extended.size.trans size) (extended.card_free_le.trans enough)
    refine ⟨later ++ first, extended.trans extended', ?_, led'.append ?_⟩
    · intro other member
      rcases List.mem_cons.mp member with rfl | member
      · exact (extended'.marked other).mpr (.inl here)
      · exact there other member
    · rcases led with rfl | ⟨rest, rfl, led⟩
      · exact trivial
      · have inside : child < graph.size := by
          have free := Walk.mem_free.mpr (extended.unmarked child List.mem_cons_self)
          rw [← size]
          exact Finset.mem_range.mp (Finset.mem_filter.mp free).1
        refine ⟨⟨parent, List.mem_cons_self, subset child List.mem_cons_self, inside⟩, ?_⟩
        exact led.mono fun other member => by
          rw [List.mem_singleton.mp member]
          exact List.mem_cons_self

/-- **A walk with enough fuel is complete.**  It marks its node, leaves no successor of an entered
node unmarked, and lists the nodes it enters so that edges lead through the list. -/
theorem walkFrom_extends (fuel : Nat) (walk : Walk) (node : Nat)
    (size : walk.marked.size = graph.size) (enough : walk.free.card ≤ fuel) :
    ∃ added, graph.Extends walk added (graph.walkFrom fuel walk node) ∧
      (graph.walkFrom fuel walk node).isMarked node = true ∧ graph.LedFrom node added := by
  induction fuel generalizing walk node with
  | zero =>
    refine ⟨[], .refl walk, ?_, .inl rfl⟩
    have none : walk.free = ∅ := Finset.card_eq_zero.mp (Nat.le_zero.mp enough)
    rw [walkFrom, ← Bool.not_eq_false, ← Walk.mem_free, none]
    exact Finset.notMem_empty node
  | succ fuel ih =>
    rw [walkFrom]
    by_cases marked : walk.isMarked node = true
    · rw [if_pos marked]
      exact ⟨[], .refl walk, marked, .inl rfl⟩
    · rw [if_neg marked]
      rw [Bool.not_eq_true] at marked
      have less := Walk.card_free_mark marked
      obtain ⟨added, extended, children, led⟩ :=
        foldl_walkFrom node ih (graph.next node) (fun _ member => member) (walk.mark node)
          (Walk.size_mark.trans size) (by omega)
      have here := (extended.marked node).mpr (.inl (Walk.isMarked_mark.mpr (.inr rfl)))
      refine ⟨node :: added, ?_, here, .inr ⟨added, rfl, led⟩⟩
      exact {
        size := extended.size.trans Walk.size_mark
        done := congrArg (node :: ·) extended.done
        marked := fun other => by
          rw [Walk.isMarked_finish, extended.marked, Walk.isMarked_mark, List.mem_cons]
          tauto
        unmarked := fun other member => by
          rcases List.mem_cons.mp member with rfl | member
          · exact marked
          · have := extended.unmarked other member
            rw [← Bool.not_eq_true, Walk.isMarked_mark] at this
            exact Bool.not_eq_true _ ▸ fun known => this (.inl known)
        nodup := by
          refine List.nodup_cons.mpr ⟨fun member => ?_, extended.nodup⟩
          have := extended.unmarked node member
          rw [Walk.isMarked_mark.mpr (.inr rfl)] at this
          cases this
        closed := fun other member child edge => by
          rcases List.mem_cons.mp member with rfl | member
          · exact children child edge
          · exact extended.closed other member child edge }

end Bytescript.Flow.Graph
