import Bytescript.Proofs.Script.Nesting
import Bytescript.Proofs.Translation.Body
import Bytescript.Proofs.Translation.Scope
import Bytescript.Proofs.Translation.Tree

/-!
# Every jump of nested code is in scope

The labels around the code of a block are the offsets of loops and merges that belong to blocks
further up: those of loops dominate the block, and those of merges have immediate dominators that
do.  So no label is ever used again inside of itself, and since all that the code needs is there,
every jump finds its label.
-/

set_option autoImplicit false

namespace Bytescript.Translation

open Bytescript.Flow Script

variable {flow : ControlFlow} {codes : Codes} {jump inline : Jump} {block target : Nat}
  {parts loops : List Nat} {skeleton : Skeleton}

/-! ## The parts that blocks are made of -/

theorem scoped_casesOf {groups : List CaseGroup} {cases : Cases}
    (made : casesOf jump groups = .ok cases)
    (jumps : ∀ group ∈ groups, ∀ body, jump group.target = .ok body → body.Scoped parts loops) :
    cases.Scoped parts loops := by
  induction groups generalizing cases with
  | nil =>
    cases made
    trivial
  | cons group rest ih =>
    obtain ⟨body, here, made⟩ := bind_eq_ok.mp made
    obtain ⟨behind, there, made⟩ := bind_eq_ok.mp made
    cases made
    obtain ⟨first, later⟩ := List.forall_mem_cons.mp jumps
    exact ⟨first body here, ih there later⟩

theorem scoped_recoveryOf {groups : List HandlerGroup} {recovery : Recovery}
    (made : recoveryOf jump groups = .ok recovery)
    (jumps : ∀ group ∈ groups, ∀ body, jump group.target = .ok body → body.Scoped parts loops) :
    recovery.Scoped parts loops := by
  fun_induction recoveryOf jump groups generalizing recovery with
  | case1 =>
    cases made
    trivial
  | case2 target rest =>
    obtain ⟨body, here, made⟩ := bind_eq_ok.mp made
    cases made
    exact jumps _ List.mem_cons_self body here
  | case3 target classes rest ih =>
    obtain ⟨body, here, made⟩ := bind_eq_ok.mp made
    obtain ⟨otherwise, there, made⟩ := bind_eq_ok.mp made
    cases made
    obtain ⟨first, later⟩ := List.forall_mem_cons.mp jumps
    exact ⟨first body here, ih there later⟩

theorem scoped_exitSkeleton {exit : Exit} (made : exitSkeleton flow jump exit = .ok skeleton)
    (jumps : ∀ offset ∈ exit.targets, ∀ target, blockAt? flow.blocks offset = some target →
      ∀ body, jump target = .ok body → body.Scoped parts loops) :
    skeleton.Scoped parts loops := by
  cases exit with
  | goto offset =>
    obtain ⟨target, here, made⟩ := bind_eq_ok.mp made
    exact jumps offset (List.mem_singleton.mpr rfl) target (blockStarting_eq_ok.mp here) _ made
  | branch condition yes no =>
    obtain ⟨target, here, made⟩ := bind_eq_ok.mp made
    obtain ⟨otherwise, there, made⟩ := bind_eq_ok.mp made
    have first := jumps yes List.mem_cons_self target (blockStarting_eq_ok.mp here)
    have second := jumps no (.tail _ List.mem_cons_self) otherwise (blockStarting_eq_ok.mp there)
    split at made
    · exact first _ made
    · obtain ⟨body, here, made⟩ := bind_eq_ok.mp made
      obtain ⟨body', there, made⟩ := bind_eq_ok.mp made
      cases made
      exact ⟨first body here, second body' there⟩
  | switch key cases default =>
    obtain ⟨located, same, made⟩ := bind_eq_ok.mp made
    obtain ⟨first, last, made⟩ := bind_eq_ok.mp made
    obtain ⟨code, grouped, made⟩ := bind_eq_ok.mp made
    cases made
    apply scoped_casesOf grouped
    intro group member
    obtain ⟨offset, named, here⟩ := exists_offset_of_mem_ofCases key
      (locate_eq_ok.mp same) (blockStarting_eq_ok.mp last) (List.mem_map_of_mem member)
    exact jumps offset named _ here
  | leave value =>
    cases made
    trivial
  | throw =>
    cases made
    trivial

/-- A block and how it is left are in scope if its jumps are. -/
theorem scoped_guardedBlock (wellBuilt : flow.WellBuilt) (translated : Translated flow codes)
    (made : guardedBlock flow codes jump block = .ok skeleton)
    (jumps : ∀ target, flow.shape.graph.Edge block target → ∀ body, jump target = .ok body →
      body.Scoped parts loops) : skeleton.Scoped parts loops := by
  obtain ⟨code, recovery, exit, coded, handled, left, rfl⟩ := guardedBlock_eq_ok.mp made
  obtain ⟨content, _, suits⟩ := translated.suits coded
  refine ⟨⟨suits.actions, scoped_recoveryOf handled fun group member body => ?_⟩,
    scoped_exitSkeleton left fun offset member target here => ?_⟩
  · obtain ⟨handler, listed, target⟩ := HandlerGroup.exists_handler_of_mem member
    exact target ▸ jumps handler.target (wellBuilt.edge_of_covering listed) body
  · obtain ⟨other, listed, there⟩ := translated.exists_next wellBuilt coded member
    cases here.symm.trans there
    exact jumps target (wellBuilt.edge_of_next listed)

/-! ## The labels around a block -/

/-- Labels of loops and merges that belong to blocks further up. -/
structure Labels (flow : ControlFlow) (above : Nat → Prop) (parts loops : List Nat) : Prop where
  parts : ∀ label ∈ parts, ∃ merge dominator, flow.start merge = label ∧
    flow.shape.immediateDominator merge = some dominator ∧ above dominator
  loops : ∀ label ∈ loops, ∃ header, flow.start header = label ∧ above header

theorem Labels.mono {above above' : Nat → Prop} (labels : Labels flow above parts loops)
    (implies : ∀ {other}, above other → above' other) : Labels flow above' parts loops where
  parts label member := by
    obtain ⟨merge, dominator, same, immediate, up⟩ := labels.parts label member
    exact ⟨merge, dominator, same, immediate, implies up⟩
  loops label member := by
    obtain ⟨header, same, up⟩ := labels.loops label member
    exact ⟨header, same, implies up⟩

/-- The labels of merges that a block immediately dominates belong to that block. -/
theorem Labels.append (wellBuilt : flow.WellBuilt) {merges : List Nat}
    (reachable : flow.shape.graph.Reachable block)
    (labels : Labels flow (flow.shape.graph.Dominates · block) parts loops)
    (listed : ∀ merge ∈ merges, merge ∈ mergesOf flow block) :
    Labels flow (flow.shape.graph.Dominates · block) (merges.map flow.start ++ parts) loops where
  parts label member := by
    rcases List.mem_append.mp member with own | outer
    · obtain ⟨merge, member, same⟩ := List.mem_map.mp own
      have immediate := ((mem_mergesOf wellBuilt).mp (listed merge member)).1
      exact ⟨merge, block, same, immediate, .refl reachable⟩
    · exact labels.parts label outer
  loops := labels.loops

/-- Nested code of blocks is in scope where its labels and what it needs are around it. -/
def ScopedTrees (flow : ControlFlow) (inline : Jump) : Prop :=
  ∀ {target : Nat} {skeleton : Skeleton} {parts loops : List Nat},
    inline target = .ok skeleton → flow.shape.graph.Reachable target →
    Labels flow (flow.shape.graph.StrictlyDominates · target) parts loops →
    Provides flow.shape (fun header => flow.start header ∈ loops)
      (fun merge => flow.start merge ∈ parts) target → skeleton.Scoped parts loops

/-! ## Jumps and merges -/

/-- Every jump from a block is in scope inside of the loops and parts around it. -/
theorem scoped_jumpFrom (wellBuilt : flow.WellBuilt) (reducible : flow.shape.reducible = true)
    (trees : ScopedTrees flow inline) (reachable : flow.shape.graph.Reachable block)
    (labels : Labels flow (flow.shape.graph.Dominates · block) parts loops)
    (inside : Inside flow.shape (fun header => flow.start header ∈ loops)
      (fun merge => flow.start merge ∈ parts) block)
    (edge : flow.shape.graph.Edge block target)
    (made : jumpFrom flow inline block target = .ok skeleton) : skeleton.Scoped parts loops := by
  rcases jumpFrom_eq_ok made with ⟨back, rfl⟩ | ⟨ahead, isMerge, rfl⟩ | ⟨ahead, single, made⟩
  · exact (inside.loop wellBuilt.shape reducible edge back).2
  · exact inside.merge wellBuilt.shape (forward_of_edge wellBuilt reachable edge ahead) isMerge
  · have forward := forward_of_edge wellBuilt reachable edge ahead
    have strict := strictlyDominates_of_immediateDominator wellBuilt
      (immediateDominator_of_edge wellBuilt reducible reachable edge ahead single)
    exact trees made (.step reachable edge trivial) (labels.mono fun up => up.trans_strictly strict)
      (inside.child wellBuilt.shape reducible forward single)

/-- Merges behind labelled parts are in scope, if what stands inside of the parts is. -/
theorem scoped_withMerges (wellBuilt : flow.WellBuilt) (trees : ScopedTrees flow inline)
    (reachable : flow.shape.graph.Reachable block) {merges : List Nat} {body : Skeleton}
    (made : withMerges flow inline body merges = .ok skeleton)
    (last : LastMerges flow block merges)
    (labels : Labels flow (flow.shape.graph.Dominates · block) parts loops)
    (fresh : ∀ merge ∈ merges, flow.start merge ∉ parts)
    (inside : Inside flow.shape (fun header => flow.start header ∈ loops)
      (fun merge => flow.start merge ∈ parts ∨ merge ∈ mergesOf flow block) block)
    (scope : body.Scoped (merges.map flow.start ++ parts) loops) :
    skeleton.Scoped parts loops := by
  induction merges generalizing body with
  | nil =>
    cases made
    exact scope
  | cons merge rest ih =>
    obtain ⟨after, here, made⟩ := withMerges_cons_eq_ok.mp made
    obtain ⟨unused, fresh⟩ := List.forall_mem_cons.mp fresh
    have member := last.listed merge List.mem_cons_self
    have strict := strictlyDominates_of_mem_mergesOf wellBuilt member
    refine ih made last.tail fresh ⟨⟨?_, scope⟩, ?_⟩
    · intro again
      rcases List.mem_append.mp again with own | outer
      · obtain ⟨other, later, same⟩ := List.mem_map.mp own
        have strict' := strictlyDominates_of_mem_mergesOf wellBuilt (last.tail.listed other later)
        cases wellBuilt.start_inj (strict'.1.1.lt_size.trans_eq wellBuilt.size)
          (strict.1.1.lt_size.trans_eq wellBuilt.size) same
        exact last.head_notMem later
      · exact unused outer
    · refine trees here strict.1.1
        ((labels.append wellBuilt reachable last.tail.listed).mono
          fun up => up.trans_strictly strict) ?_
      refine inside.merged wellBuilt.shape ((mem_mergesOf wellBuilt).mp member).1 ?_
      rintro other (outside | known) behind
      · exact List.mem_append_right _ outside
      · exact List.mem_append_left _ (List.mem_map_of_mem (last.mem_rest known behind))

/-! ## Trees -/

theorem Labels.start_notMem_parts (wellBuilt : flow.WellBuilt) {merge : Nat}
    (labels : Labels flow (flow.shape.graph.StrictlyDominates · block) parts loops)
    (member : merge ∈ mergesOf flow block) : flow.start merge ∉ parts := by
  intro again
  obtain ⟨other, dominator, same, immediate, strict⟩ := labels.parts _ again
  have inside := immediate
  rw [wellBuilt.shape] at inside
  cases wellBuilt.start_inj
    ((Analysis.lt_of_immediateDominator inside).trans_eq wellBuilt.size)
    ((strictlyDominates_of_mem_mergesOf wellBuilt member).1.1.lt_size.trans_eq wellBuilt.size) same
  cases immediate.symm.trans ((mem_mergesOf wellBuilt).mp member).1
  exact strict.2 rfl

theorem Labels.start_notMem_loops (wellBuilt : flow.WellBuilt)
    (reachable : flow.shape.graph.Reachable block)
    (labels : Labels flow (flow.shape.graph.StrictlyDominates · block) parts loops) :
    flow.start block ∉ loops := by
  intro again
  obtain ⟨other, same, strict⟩ := labels.loops _ again
  exact strict.2 (wellBuilt.start_inj (strict.1.reachable.lt_size.trans_eq wellBuilt.size)
    (reachable.lt_size.trans_eq wellBuilt.size) same)

/-- The code of a block inside of its loop is in scope. -/
theorem scoped_inner (wellBuilt : flow.WellBuilt) (translated : Translated flow codes)
    (reducible : flow.shape.reducible = true) (trees : ScopedTrees flow inline)
    (reachable : flow.shape.graph.Reachable block) {guarded : Skeleton}
    (made : guardedBlock flow codes (jumpFrom flow inline block) block = .ok guarded)
    (merged : withMerges flow inline guarded (mergesOf flow block) = .ok skeleton)
    (labels : Labels flow (flow.shape.graph.Dominates · block) parts loops)
    (fresh : ∀ merge ∈ mergesOf flow block, flow.start merge ∉ parts)
    (inside : Inside flow.shape (fun header => flow.start header ∈ loops)
      (fun merge => flow.start merge ∈ parts ∨ merge ∈ mergesOf flow block) block) :
    skeleton.Scoped parts loops := by
  refine scoped_withMerges wellBuilt trees reachable merged (lastMerges_all wellBuilt) labels fresh
    inside ?_
  apply scoped_guardedBlock wellBuilt translated made
  intro target edge body jump
  refine scoped_jumpFrom wellBuilt reducible trees reachable
    (labels.append wellBuilt reachable fun _ member => member) ⟨inside.loops, ?_⟩ edge jump
  intro merge above isMerge immediate dominates behind
  rcases inside.merges isMerge immediate dominates behind with outside | known
  · exact List.mem_append_right _ outside
  · exact List.mem_append_left _ (List.mem_map_of_mem known)

/-- Nested code is in scope wherever a block stands. -/
theorem scoped_treeOf (wellBuilt : flow.WellBuilt) (translated : Translated flow codes)
    (reducible : flow.shape.reducible = true) (fuel : Nat) :
    ScopedTrees flow (treeOf flow codes fuel) := by
  induction fuel with
  | zero =>
    intro target skeleton parts loops made
    cases made
  | succ fuel ih =>
    intro block skeleton parts loops whole reachable labels provides
    obtain ⟨guarded, inner, made, merged, rfl⟩ := treeOf_succ_eq_ok.mp whole
    have weaker := labels.mono fun {other} up => up.1
    have fresh (merge : Nat) (member : merge ∈ mergesOf flow block) :=
      labels.start_notMem_parts wellBuilt member
    have own {merge : Nat} (isMerge : flow.shape.isMerge merge = true)
        (immediate : flow.shape.immediateDominator merge = some block) :
        flow.start merge ∈ parts ∨ merge ∈ mergesOf flow block :=
      .inr ((mem_mergesOf wellBuilt).mpr ⟨immediate, isMerge⟩)
    split
    next header =>
      refine ⟨labels.start_notMem_loops wellBuilt reachable, ?_⟩
      refine scoped_inner wellBuilt translated reducible ih reachable made merged
        ⟨weaker.parts, List.forall_mem_cons.mpr ⟨⟨block, rfl, .refl reachable⟩, weaker.loops⟩⟩
        fresh (provides.inside (.tail _) (fun _ => List.mem_cons_self) .inl own)
    next plain =>
      refine scoped_inner wellBuilt translated reducible ih reachable made merged weaker fresh
        (provides.inside id (fun header => absurd header plain) .inl own)

/-- The code of a whole method is in scope. -/
theorem scoped_structuredCode (wellBuilt : flow.WellBuilt) (translated : Translated flow codes)
    (reducible : flow.shape.reducible = true)
    (made : structuredCode flow codes = .ok skeleton) : skeleton.Scoped [] [] :=
  scoped_treeOf wellBuilt translated reducible flow.size made wellBuilt.reachable_entry
    ⟨by simp, by simp⟩ provides_entry

/-- The lines of a method with a reducible flow nest, and they come back to the depth at which
they begin without going above it. -/
theorem structured_body_nests {scope : Scope} {pool : ConstantPool} {code : Code}
    (prepared : prepare scope pool code = .ok (flow, codes))
    (reducible : flow.shape.reducible = true) :
    ∃ skeleton, bodyOf flow codes = .ok (.structured skeleton) ∧
      Nests [] (Body.structured skeleton).lines [] ∧
      Balanced (Body.structured skeleton).lines := by
  have wellBuilt := wellBuilt_of_prepare prepared
  have translated := translated_of_prepare prepared
  obtain ⟨skeleton, made⟩ := exists_structuredCode wellBuilt translated
  have nests := nests_skeleton skeleton .nothing
    (scoped_structuredCode wellBuilt translated reducible made)
  exact ⟨skeleton, bodyOf_reducible reducible made, nests, nests.balanced⟩

theorem structured_countdown_nests :
    ∃ flow codes, prepare lone .empty countdown = .ok (flow, codes) ∧
      flow.shape.reducible = true ∧ ∃ skeleton, bodyOf flow codes = .ok (.structured skeleton) ∧
        Nests [] (Body.structured skeleton).lines [] ∧
        Balanced (Body.structured skeleton).lines := by
  obtain ⟨flow, codes, prepared, reducible⟩ := exists_prepare lone .empty countdown
    (fun flow _ => flow.shape.reducible) (by decide +kernel)
  exact ⟨flow, codes, prepared, reducible, structured_body_nests prepared reducible⟩

end Bytescript.Translation
