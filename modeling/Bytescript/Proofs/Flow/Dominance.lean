import Bytescript.Proofs.Flow.Order

/-!
# Dominance

A node dominates another if no path from the entry leads to the other without it.  Everything
here rests on two facts about the reverse postorder: an edge from an earlier node leads to every
node but the entry, and so a node stands behind all that dominate it.  The dominators of a node
form a chain, in the order in which they are listed.
-/

set_option autoImplicit false

namespace Bytescript.Flow.Graph

/-- Where a node stands in the order. -/
def place (graph : Graph) (node : Nat) : Nat := graph.reversePostorder.idxOf node

/-- Every path from the entry to `node` leads through `dominator`, and there is one. -/
def Dominates (graph : Graph) (dominator node : Nat) : Prop :=
  graph.Reachable node ∧ ¬ graph.Reaches (fun other => other ≠ dominator) node

/-- A node dominates another one. -/
def StrictlyDominates (graph : Graph) (dominator node : Nat) : Prop :=
  graph.Dominates dominator node ∧ dominator ≠ node

variable {graph : Graph} {allowed : Nat → Prop} {first second node source : Nat}

/-! ## Paths that go forward -/

theorem place_inj (reachable : graph.Reachable first)
    (same : graph.place first = graph.place second) :
    first = second :=
  (List.idxOf_inj (mem_reversePostorder.mpr reachable)).mp same

theorem place_lt_size (reachable : graph.Reachable node) : graph.place node < graph.size := by
  have listed := List.idxOf_lt_length_of_mem (mem_reversePostorder.mpr reachable)
  refine listed.trans_le ?_
  have few := (reversePostorder_nodup graph).subperm fun other member =>
    List.mem_range.mpr (mem_reversePostorder.mp member).lt_size
  exact few.length_le.trans_eq List.length_range

theorem place_entry : graph.place 0 = 0 := idxOf_entry

/-- Whatever holds of the entry and is passed on by forward edges holds of all nodes. -/
@[elab_as_elim]
theorem forward_induction {motive : (node : Nat) → graph.Reachable node → Prop}
    (entry : ∀ reachable : graph.Reachable 0, motive 0 reachable)
    (step : ∀ source node (reachable : graph.Reachable source) (edge : graph.Edge source node),
      graph.place source < graph.place node → motive source reachable →
        motive node (.step reachable edge trivial))
    (reachable : graph.Reachable node) : motive node reachable := by
  induction position : graph.place node using Nat.strong_induction_on generalizing node with
  | _ position ih =>
    by_cases start : node = 0
    · subst start
      exact entry reachable
    · obtain ⟨source, listed, edge, earlier⟩ :=
        exists_earlier_source (mem_reversePostorder.mpr reachable) start
      have reached := mem_reversePostorder.mp listed
      exact step source node reached edge earlier
        (ih (graph.place source) (position ▸ earlier) reached rfl)

/-! ## Dominators of a node -/

theorem Dominates.refl (reachable : graph.Reachable node) : graph.Dominates node node :=
  ⟨reachable, fun reaches => reaches.permitted rfl⟩

theorem dominates_entry (reachable : graph.Reachable node) : graph.Dominates 0 node := by
  refine ⟨reachable, fun reaches => ?_⟩
  induction reaches with
  | entry _ other => exact other rfl
  | step before _ _ ih => exact ih before.reachable

theorem eq_entry_of_dominates (dominates : graph.Dominates first 0) : first = 0 := by
  by_contra other
  exact dominates.2 (.entry dominates.1.lt_size (Ne.symm other))

/-- What dominates a node dominates everything with an edge to it. -/
theorem Dominates.of_edge (dominates : graph.Dominates first node)
    (reachable : graph.Reachable source) (edge : graph.Edge source node) (other : first ≠ node) :
    graph.Dominates first source :=
  ⟨reachable, fun reaches => dominates.2 (.step reaches edge (Ne.symm other))⟩

/-- A node stands behind all that dominate it, and these can be reached. -/
theorem Dominates.reachable_and_place_le (dominates : graph.Dominates first node) :
    graph.Reachable first ∧ graph.place first ≤ graph.place node := by
  have reachable := dominates.1
  revert dominates
  induction reachable using forward_induction with
  | entry reachable =>
    intro dominates
    rw [eq_entry_of_dominates dominates]
    exact ⟨reachable, le_rfl⟩
  | step source node reachable edge earlier ih =>
    intro dominates
    by_cases same : first = node
    · subst same
      exact ⟨dominates.1, le_rfl⟩
    · obtain ⟨reached, before⟩ := ih (dominates.of_edge reachable edge same)
      exact ⟨reached, before.trans earlier.le⟩

theorem Dominates.reachable (dominates : graph.Dominates first node) : graph.Reachable first :=
  dominates.reachable_and_place_le.1

theorem Dominates.place_le (dominates : graph.Dominates first node) :
    graph.place first ≤ graph.place node :=
  dominates.reachable_and_place_le.2

theorem StrictlyDominates.place_lt (dominates : graph.StrictlyDominates first node) :
    graph.place first < graph.place node :=
  dominates.1.place_le.lt_of_ne fun same => dominates.2 (place_inj dominates.1.reachable same)

/-- A path without one node either avoids another node as well, or leads to that one. -/
theorem Reaches.avoids_or_meets (reaches : graph.Reaches allowed node) (other : Nat) :
    graph.Reaches (fun node => allowed node ∧ node ≠ other) node ∨ graph.Reaches allowed other := by
  induction reaches with
  | entry nonempty here =>
    by_cases same : 0 = other
    · exact .inr (same ▸ .entry nonempty here)
    · exact .inl (.entry nonempty ⟨here, same⟩)
  | @step source target before edge here ih =>
    rcases ih with avoids | meets
    · by_cases same : target = other
      · exact .inr (same ▸ .step before edge here)
      · exact .inl (.step avoids edge ⟨here, same⟩)
    · exact .inr meets

theorem Dominates.trans (upper : graph.Dominates first second)
    (lower : graph.Dominates second node) : graph.Dominates first node := by
  refine ⟨lower.1, fun reaches => ?_⟩
  rcases reaches.avoids_or_meets second with avoids | meets
  · exact lower.2 (avoids.mono fun _ here => here.2)
  · exact upper.2 meets

theorem Dominates.antisymm (one : graph.Dominates first second)
    (other : graph.Dominates second first) : first = second :=
  place_inj one.reachable (one.place_le.antisymm other.place_le)

theorem Dominates.trans_strictly (upper : graph.Dominates first second)
    (lower : graph.StrictlyDominates second node) : graph.StrictlyDominates first node := by
  refine ⟨upper.trans lower.1, ?_⟩
  rintro rfl
  exact lower.2 (lower.1.antisymm upper)

/-- The dominators of a node dominate each other in the order in which they are listed. -/
theorem Dominates.chain (one : graph.Dominates first node) (other : graph.Dominates second node)
    (ordered : graph.place first ≤ graph.place second) : graph.Dominates first second := by
  by_contra free
  have avoids : graph.Reaches (fun other => other ≠ first) second := by
    by_contra blocked
    exact free ⟨other.reachable, blocked⟩
  have different : second ≠ first := avoids.permitted
  -- Paths forward from `second` never come to `first`, which stands before it.
  have spread : graph.Dominates second node → graph.Reaches (fun other => other ≠ first) node := by
    have reachable := one.1
    clear one other
    induction reachable using forward_induction with
    | entry _ =>
      intro dominates
      exact eq_entry_of_dominates dominates ▸ avoids
    | step source node reachable edge _ ih =>
      intro dominates
      by_cases same : second = node
      · exact same ▸ avoids
      · refine .step (ih (dominates.of_edge reachable edge same)) edge ?_
        rintro rfl
        exact different (place_inj dominates.reachable (dominates.place_le.antisymm ordered))
  exact one.2 (spread other)

/-- A path arrives at a node for the first time from a node that it does not dominate. -/
theorem Reaches.first_arrival (reaches : graph.Reaches allowed node) (target : Nat) :
    graph.Reaches (fun node => allowed node ∧ node ≠ target) node ∨
      (target = 0 ∨ ∃ source, graph.Edge source target ∧
        graph.Reaches (fun node => allowed node ∧ node ≠ target) source) := by
  induction reaches with
  | entry nonempty here =>
    by_cases same : 0 = target
    · exact .inr (.inl same.symm)
    · exact .inl (.entry nonempty ⟨here, same⟩)
  | @step source next _ edge here ih =>
    rcases ih with avoids | arrived
    · by_cases same : next = target
      · exact .inr (.inr ⟨source, same ▸ edge, avoids⟩)
      · exact .inl (.step avoids edge ⟨here, same⟩)
    · exact .inr arrived

end Bytescript.Flow.Graph
