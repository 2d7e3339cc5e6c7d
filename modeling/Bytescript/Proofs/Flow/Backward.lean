import Bytescript.Proofs.Flow.Shape
import Mathlib.Logic.Relation

/-!
# Edges that go back

An edge that goes back in the reverse postorder leads to a node that the walk had not finished yet
when it came to the source of the edge.  So the walk came from the one to the other: edges that go
forward lead from the target back to the source, and the edge closes a cycle.

What the walk lists makes that visible.  Behind every node stand first the nodes that were found
below it, and all nodes that stand behind those were finished before it was entered, so that they
have no edge to it.
-/

set_option autoImplicit false

namespace Bytescript.Flow.Graph

variable {graph : Graph}

/-! ## Lists of a finished walk -/

/-- Behind every node of a list stand first nodes that edges lead to from it through the list, and
then nodes without an edge to it. -/
def Enclosed (graph : Graph) : List Nat → Prop
  | [] => True
  | node :: rest =>
    (∃ inner outer, rest = inner ++ outer ∧ graph.Led [node] inner ∧
      ∀ source ∈ outer, node ∉ graph.next source) ∧ graph.Enclosed rest

theorem Enclosed.append {first second : List Nat} (here : graph.Enclosed first)
    (there : graph.Enclosed second)
    (apart : ∀ source ∈ second, ∀ node ∈ first, node ∉ graph.next source) :
    graph.Enclosed (first ++ second) := by
  induction first with
  | nil => exact there
  | cons node rest ih =>
    obtain ⟨⟨inner, outer, rfl, led, others⟩, later⟩ := here
    refine ⟨⟨inner, outer ++ second, List.append_assoc .., led, ?_⟩,
      ih later fun source member other listed => apart source member other (.tail _ listed)⟩
    intro source member
    rcases List.mem_append.mp member with member | member
    · exact others source member
    · exact apart source member node List.mem_cons_self

theorem Enclosed.behind {list front back : List Nat} {node : Nat} (enclosed : graph.Enclosed list)
    (split : list = front ++ node :: back) :
    ∃ inner outer, back = inner ++ outer ∧ graph.Led [node] inner ∧
      ∀ source ∈ outer, node ∉ graph.next source := by
  induction front generalizing list with
  | nil =>
    subst split
    exact enclosed.1
  | cons first front ih =>
    subst split
    exact ih enclosed.2 rfl

/-- Walks from several nodes with edges from one node, one after the other. -/
theorem foldl_walkFrom_enclosed {fuel : Nat} (parent : Nat)
    (ih : ∀ (walk : Walk) (node : Nat) (added : List Nat), walk.marked.size = graph.size →
      walk.free.card ≤ fuel → (graph.walkFrom fuel walk node).done = added ++ walk.done →
        graph.Enclosed added)
    (children : List Nat) (subset : ∀ child ∈ children, child ∈ graph.next parent) (walk : Walk)
    (added : List Nat) (size : walk.marked.size = graph.size) (enough : walk.free.card ≤ fuel)
    (done : (children.foldl (fun walk child => graph.walkFrom fuel walk child) walk).done =
      added ++ walk.done) : graph.Enclosed added := by
  induction children generalizing walk added with
  | nil =>
    have none : added = [] := List.self_eq_append_left.mp done
    exact none ▸ trivial
  | cons child rest restIh =>
    obtain ⟨first, extended, _⟩ := walkFrom_extends fuel walk child size enough
    have size' := extended.size.trans size
    have enough' := extended.card_free_le.trans enough
    have subset' : ∀ other ∈ rest, other ∈ graph.next parent :=
      fun other member => subset other (.tail _ member)
    obtain ⟨later, extended', _⟩ := foldl_walkFrom parent (walkFrom_extends fuel) rest subset'
      (graph.walkFrom fuel walk child) size' enough'
    have whole : added = later ++ first := by
      refine List.append_cancel_right (done.symm.trans ?_)
      rw [List.foldl_cons, extended'.done, extended.done, List.append_assoc]
    rw [whole]
    refine (restIh subset' _ later size' enough' extended'.done).append
      (ih walk child first size enough extended.done) ?_
    -- Whatever the earlier walk finished has no edge to what only the later walks enter.
    intro source member node listed edge
    have marked := extended.closed source member node edge
    rw [extended'.unmarked node listed] at marked
    cases marked

theorem walkFrom_enclosed (fuel : Nat) (walk : Walk) (node : Nat) (added : List Nat)
    (size : walk.marked.size = graph.size) (enough : walk.free.card ≤ fuel)
    (done : (graph.walkFrom fuel walk node).done = added ++ walk.done) :
    graph.Enclosed added := by
  induction fuel generalizing walk node added with
  | zero =>
    have none : added = [] := List.self_eq_append_left.mp done
    exact none ▸ trivial
  | succ fuel ih =>
    rw [walkFrom] at done
    by_cases marked : walk.isMarked node = true
    · rw [if_pos marked] at done
      have none : added = [] := List.self_eq_append_left.mp done
      exact none ▸ trivial
    · rw [if_neg marked] at done
      rw [Bool.not_eq_true] at marked
      have less := Walk.card_free_mark marked
      have size' : (walk.mark node).marked.size = graph.size := Walk.size_mark.trans size
      obtain ⟨below, extended, _, led⟩ := foldl_walkFrom node (walkFrom_extends fuel)
        (graph.next node) (fun _ member => member) (walk.mark node) size' (by omega)
      have whole : added = node :: below :=
        List.append_cancel_right (done.symm.trans (congrArg (node :: ·) extended.done))
      have enclosed := foldl_walkFrom_enclosed node ih (graph.next node)
        (fun _ member => member) (walk.mark node) below size' (by omega) extended.done
      exact whole ▸ ⟨⟨below, [], (List.append_nil below).symm, led, by simp⟩, enclosed⟩

theorem reversePostorder_enclosed (graph : Graph) : graph.Enclosed graph.reversePostorder :=
  walkFrom_enclosed graph.size (.fresh graph) 0 graph.reversePostorder size_fresh
    (card_free_le_size size_fresh) (List.append_nil _).symm

end Graph

namespace Analysis

open Bytescript.Flow.Graph

variable {graph : Graph} {source target : Nat}

/-! ## Paths back -/

/-- Where edges lead to through a part of the order, edges that go forward lead to. -/
theorem forward_of_led {start : Nat} {before list : List Nat} (led : graph.Led before list)
    (reached : ∀ node ∈ before, graph.Reachable node ∧
      Relation.ReflTransGen (Forward graph) start node)
    (ordered : (before.reverse ++ list).Pairwise fun one other =>
      graph.place one < graph.place other) :
    ∀ node ∈ list, Relation.ReflTransGen (Forward graph) start node := by
  induction list generalizing before with
  | nil => simp
  | cons first rest ih =>
    obtain ⟨⟨source, member, edge⟩, led⟩ := led
    obtain ⟨reachable, path⟩ := reached source member
    have earlier := (List.pairwise_append.mp ordered).2.2 source (List.mem_reverse.mpr member)
      first List.mem_cons_self
    have here := path.tail ⟨reachable, edge, earlier⟩
    refine List.forall_mem_cons.mpr ⟨here, ih led ?_ (by simpa using ordered)⟩
    exact List.forall_mem_cons.mpr ⟨⟨.step reachable edge trivial, here⟩, reached⟩

/-- **An edge that goes back closes a cycle**, whose other edges go forward. -/
theorem forward_of_back (reachable : graph.Reachable source) (edge : graph.Edge source target)
    (back : graph.place target ≤ graph.place source) :
    Relation.ReflTransGen (Forward graph) target source := by
  by_cases self : source = target
  · exact self ▸ .refl
  have reached : graph.Reachable target := .step reachable edge trivial
  obtain ⟨front, rest, order⟩ := List.append_of_mem (mem_reversePostorder.mpr reached)
  have ordered : graph.reversePostorder.Pairwise _ := order_pairwise
  rw [order, List.pairwise_append] at ordered
  obtain ⟨_, _, apart⟩ := ordered
  have behind : source ∈ rest := by
    have listed := mem_reversePostorder.mpr reachable
    rw [order] at listed
    rcases List.mem_append.mp listed with early | later
    · exact absurd (apart source early target List.mem_cons_self) (not_lt.mpr back)
    · exact (List.mem_cons.mp later).resolve_left self
  obtain ⟨inner, outer, rfl, led, others⟩ := (reversePostorder_enclosed graph).behind order
  rcases List.mem_append.mp behind with below | beyond
  · refine forward_of_led led ?_ ?_ source below
    · simpa using ⟨reached, Relation.ReflTransGen.refl⟩
    · refine (order_pairwise : graph.reversePostorder.Pairwise _).sublist ?_
      rw [order]
      exact List.sublist_append_of_sublist_right
        ((List.sublist_append_left inner outer).cons_cons target)
  · exact absurd edge.1 (others source beyond)

end Analysis

end Bytescript.Flow
