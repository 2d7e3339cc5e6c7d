import Bytescript.Proofs.Translation.Body
import Bytescript.Proofs.Translation.HandlerOrder
import Bytescript.Proofs.Translation.Tree

/-!
# How often nested code writes a block

Nested code writes a block after a labelled part, or where the only edge to it starts.  A switch
has one case for each block that it leads to, and a branch that leads to one block either way is
just a jump there, so exits never write a block twice.  Handlers do if they come back to a block
after a handler with another target: only neighbours share a group, while for the graph they are a
single edge.  Nothing else ever repeats a block.
-/

set_option autoImplicit false

namespace Bytescript.Script

mutual

/-- The blocks that nested code writes, each as often as it is written. -/
def Skeleton.blocks : Skeleton → List Nat
  | .nothing => []
  | .block index _ recovery => index :: recovery.blocks
  | .andThen first second => first.blocks ++ second.blocks
  | .labelled _ body => body.blocks
  | .loop _ body => body.blocks
  | .breakTo _ => []
  | .continueTo _ => []
  | .dispatchTo _ => []
  | .choose _ yes no => yes.blocks ++ no.blocks
  | .switch _ cases => cases.blocks
  | .leave _ => []

def Cases.blocks : Cases → List Nat
  | .nil => []
  | .cons _ _ body rest => body.blocks ++ rest.blocks

def Recovery.blocks : Recovery → List Nat
  | .rethrow => []
  | .always body => body.blocks
  | .whenAny _ body otherwise => body.blocks ++ otherwise.blocks

end

end Bytescript.Script

namespace Bytescript.Translation

open Bytescript.Flow Script

variable {flow : ControlFlow} {codes : Codes} {inline jump : Jump} {block target : Nat}
  {skeleton : Skeleton} {targets : List Nat}

/-! ## What is written at a block -/

/-- What the code of a jump writes. -/
def writtenBy (jump : Jump) (target : Nat) : List Nat :=
  match jump target with
  | .ok skeleton => skeleton.blocks
  | .error _ => []

theorem writtenBy_of_eq_ok (made : jump target = .ok skeleton) :
    writtenBy jump target = skeleton.blocks := by
  rw [writtenBy, made]

theorem blocks_recoveryOf {groups : List HandlerGroup} {recovery : Recovery}
    (made : recoveryOf jump groups = .ok recovery) :
    recovery.blocks = (testedTargets groups).flatMap (writtenBy jump) := by
  fun_induction recoveryOf jump groups generalizing recovery with
  | case1 =>
    cases made
    rfl
  | case2 target rest =>
    obtain ⟨body, here, made⟩ := bind_eq_ok.mp made
    cases made
    rw [testedTargets, List.flatMap_singleton, writtenBy_of_eq_ok here, Recovery.blocks]
  | case3 target classes rest ih =>
    obtain ⟨body, here, made⟩ := bind_eq_ok.mp made
    obtain ⟨otherwise, there, made⟩ := bind_eq_ok.mp made
    cases made
    rw [testedTargets, List.flatMap_cons, writtenBy_of_eq_ok here, Recovery.blocks, ih there]

theorem blocks_casesOf {groups : List CaseGroup} {cases : Cases}
    (made : casesOf jump groups = .ok cases) :
    cases.blocks = (groups.map CaseGroup.target).flatMap (writtenBy jump) := by
  induction groups generalizing cases with
  | nil =>
    cases made
    rfl
  | cons group rest ih =>
    obtain ⟨body, here, made⟩ := bind_eq_ok.mp made
    obtain ⟨behind, there, made⟩ := bind_eq_ok.mp made
    cases made
    rw [List.map_cons, List.flatMap_cons, writtenBy_of_eq_ok here, Cases.blocks, ih there]

/-- An exit jumps once to each block that it leads to. -/
theorem blocks_exitSkeleton {exit : Exit} (made : exitSkeleton flow jump exit = .ok skeleton) :
    ∃ targets : List Nat, targets.Nodup ∧
      (∀ target ∈ targets, ∃ offset ∈ exit.targets, blockAt? flow.blocks offset = some target) ∧
      skeleton.blocks = targets.flatMap (writtenBy jump) := by
  cases exit with
  | goto offset =>
    obtain ⟨target, here, made⟩ := bind_eq_ok.mp made
    refine ⟨[target], List.nodup_singleton _, List.forall_mem_singleton.mpr ?_, ?_⟩
    · exact ⟨offset, List.mem_singleton.mpr rfl, blockStarting_eq_ok.mp here⟩
    · rw [List.flatMap_singleton, writtenBy_of_eq_ok made]
  | branch condition yes no =>
    obtain ⟨target, here, made⟩ := bind_eq_ok.mp made
    obtain ⟨otherwise, there, made⟩ := bind_eq_ok.mp made
    have first := blockStarting_eq_ok.mp here
    have second := blockStarting_eq_ok.mp there
    split at made
    next same =>
      refine ⟨[target], List.nodup_singleton _, List.forall_mem_singleton.mpr ?_, ?_⟩
      · exact ⟨yes, List.mem_cons_self, first⟩
      · rw [List.flatMap_singleton, writtenBy_of_eq_ok made]
    next different =>
      obtain ⟨body, here, made⟩ := bind_eq_ok.mp made
      obtain ⟨body', there, made⟩ := bind_eq_ok.mp made
      cases made
      refine ⟨[target, otherwise], by simp [different], ?_, ?_⟩
      · exact List.forall_mem_cons.mpr ⟨⟨yes, List.mem_cons_self, first⟩,
          List.forall_mem_singleton.mpr ⟨no, .tail _ List.mem_cons_self, second⟩⟩
      · rw [List.flatMap_cons, List.flatMap_singleton, writtenBy_of_eq_ok here,
          writtenBy_of_eq_ok there, Skeleton.blocks]
  | switch key cases default =>
    obtain ⟨located, same, made⟩ := bind_eq_ok.mp made
    obtain ⟨first, last, made⟩ := bind_eq_ok.mp made
    obtain ⟨code, grouped, made⟩ := bind_eq_ok.mp made
    cases made
    refine ⟨_, CaseGroup.nodup_ofCases located first, fun target member => ?_, ?_⟩
    · exact exists_offset_of_mem_ofCases key (locate_eq_ok.mp same) (blockStarting_eq_ok.mp last)
        member
    · rw [Skeleton.blocks, blocks_casesOf grouped]
  | leave value =>
    cases made
    exact ⟨[], List.nodup_nil, by simp, rfl⟩
  | throw =>
    cases made
    exact ⟨[], List.nodup_nil, by simp, rfl⟩

theorem writtenBy_jumpFrom :
    writtenBy (jumpFrom flow inline block) target =
      if standsInside flow block target then writtenBy inline target else [] := by
  rw [writtenBy, jumpFrom, standsInside]
  cases flow.shape.isBackward block target with
  | true => rfl
  | false =>
    cases flow.shape.isMerge target with
    | true => rfl
    | false => rfl

theorem flatMap_writtenBy_jumpFrom :
    targets.flatMap (writtenBy (jumpFrom flow inline block)) =
      (targets.filter (standsInside flow block)).flatMap (writtenBy inline) := by
  induction targets with
  | nil => rfl
  | cons target rest ih =>
    rw [List.flatMap_cons, ih, writtenBy_jumpFrom, List.filter_cons]
    split
    · rw [List.flatMap_cons]
    · rfl

theorem blocks_withMerges {merges : List Nat} {body : Skeleton}
    (made : withMerges flow inline body merges = .ok skeleton) :
    skeleton.blocks = body.blocks ++ merges.flatMap (writtenBy inline) := by
  induction merges generalizing body with
  | nil =>
    cases made
    rw [List.flatMap_nil, List.append_nil]
  | cons merge rest ih =>
    obtain ⟨after, here, made⟩ := withMerges_cons_eq_ok.mp made
    rw [ih made, List.flatMap_cons, writtenBy_of_eq_ok here, Skeleton.blocks, Skeleton.blocks,
      List.append_assoc]

/-- All blocks that stand directly inside of the code of a block. -/
def innerBlocks (flow : ControlFlow) (block : Nat) (exits : List Nat) : List Nat :=
  handlersInside flow block ++ exits.filter (standsInside flow block) ++ mergesOf flow block

/-- The code of a block writes the block, then its handlers and exits as far as they stand inside
of it, and then its merges. -/
theorem blocks_treeOf (wellBuilt : flow.WellBuilt) (translated : Translated flow codes)
    {fuel : Nat} (made : treeOf flow codes (fuel + 1) block = .ok skeleton) :
    ∃ exits : List Nat, exits.Nodup ∧ (∀ target ∈ exits, target ∈ flow.next block) ∧
      skeleton.blocks = block ::
        (innerBlocks flow block exits).flatMap (writtenBy (treeOf flow codes fuel)) := by
  obtain ⟨guarded, inner, here, there, rfl⟩ := treeOf_succ_eq_ok.mp made
  obtain ⟨code, recovery, exit, coded, handled, left, rfl⟩ := guardedBlock_eq_ok.mp here
  obtain ⟨exits, distinct, named, written⟩ := blocks_exitSkeleton left
  refine ⟨exits, distinct, fun target member => ?_, ?_⟩
  · obtain ⟨offset, listed, found⟩ := named target member
    obtain ⟨other, next, same⟩ := translated.exists_next wellBuilt coded listed
    cases found.symm.trans same
    exact next
  · have whole : inner.blocks = block :: (recovery.blocks ++ exit.blocks) ++
        (mergesOf flow block).flatMap (writtenBy (treeOf flow codes fuel)) := by
      rw [blocks_withMerges there, Skeleton.blocks, Skeleton.blocks, List.cons_append]
    rw [blocks_recoveryOf handled, written, flatMap_writtenBy_jumpFrom,
      flatMap_writtenBy_jumpFrom, ← List.flatMap_append, List.cons_append,
      ← List.flatMap_append] at whole
    split
    · exact whole
    · exact whole

/-! ## What stands inside of a block -/

/-- A block immediately dominates what stands inside of its code. -/
theorem immediateDominator_of_standsInside (wellBuilt : flow.WellBuilt)
    (reducible : flow.shape.reducible = true) (reachable : flow.shape.graph.Reachable block)
    (edge : flow.shape.graph.Edge block target)
    (inside : standsInside flow block target = true) :
    flow.shape.immediateDominator target = some block := by
  obtain ⟨ahead, single⟩ := standsInside_iff.mp inside
  exact immediateDominator_of_edge wellBuilt reducible reachable edge ahead single

/-- A handler that stands inside of a block is nowhere else that the block goes on with: there
would be two edges to it. -/
theorem notMem_next_of_mem_handlersInside (wellBuilt : flow.WellBuilt)
    (reachable : flow.shape.graph.Reachable block) (member : target ∈ handlersInside flow block) :
    target ∉ flow.next block := by
  intro next
  obtain ⟨⟨handler, covers, rfl⟩, inside⟩ := mem_handlersInside member
  obtain ⟨ahead, single⟩ := standsInside_iff.mp inside
  have twice : 2 ≤ (flow.shape.graph.next block).count handler.target := by
    have handled : handler.target ∈ ((flow.covering block).map Handler.target).eraseDups :=
      List.mem_eraseDups.mpr (List.mem_map_of_mem covers)
    rw [wellBuilt.edges, edgesOf, List.count_append]
    exact Nat.add_le_add (List.one_le_count_iff.mpr next) (List.one_le_count_iff.mpr handled)
  have forward := forward_of_edge wellBuilt reachable (wellBuilt.edge_of_next next) ahead
  rw [wellBuilt.shape] at single
  exact absurd (Analysis.isMerge_of_count forward twice) (by simp [single])

theorem immediateDominator_of_mem_innerBlocks (wellBuilt : flow.WellBuilt)
    (reducible : flow.shape.reducible = true) (reachable : flow.shape.graph.Reachable block)
    {exits : List Nat} (next : ∀ target ∈ exits, target ∈ flow.next block)
    (member : target ∈ innerBlocks flow block exits) :
    flow.shape.immediateDominator target = some block := by
  rcases List.mem_append.mp member with jump | merge
  · rcases List.mem_append.mp jump with handled | left
    · obtain ⟨⟨handler, covers, rfl⟩, inside⟩ := mem_handlersInside handled
      exact immediateDominator_of_standsInside wellBuilt reducible reachable
        (wellBuilt.edge_of_covering covers) inside
    · obtain ⟨listed, inside⟩ := List.mem_filter.mp left
      exact immediateDominator_of_standsInside wellBuilt reducible reachable
        (wellBuilt.edge_of_next (next target listed)) inside
  · exact ((mem_mergesOf wellBuilt).mp merge).1

/-- Only handlers can stand inside of a block more than once. -/
theorem nodup_innerBlocks_iff (wellBuilt : flow.WellBuilt)
    (reachable : flow.shape.graph.Reachable block) {exits : List Nat} (distinct : exits.Nodup)
    (next : ∀ target ∈ exits, target ∈ flow.next block) :
    (innerBlocks flow block exits).Nodup ↔ ¬ ComesBack flow block := by
  rw [← nodup_handlersInside_iff]
  refine ⟨fun whole => (List.nodup_append.mp (List.nodup_append.mp whole).1).1, fun handled => ?_⟩
  have merges : (mergesOf flow block).Nodup := by
    refine (mergesOf_pairwise wellBuilt).imp ?_
    rintro one _ before rfl
    exact lt_irrefl _ before
  refine List.nodup_append.mpr ⟨List.nodup_append.mpr ⟨handled, distinct.filter _, ?_⟩, merges, ?_⟩
  · rintro target inside _ left rfl
    exact notMem_next_of_mem_handlersInside wellBuilt reachable inside
      (next target (List.mem_filter.mp left).1)
  · rintro target jump _ merge rfl
    have isMerge := ((mem_mergesOf wellBuilt).mp merge).2
    have inside : standsInside flow block target = true := by
      rcases List.mem_append.mp jump with handled | left
      · exact (mem_handlersInside handled).2
      · exact (List.mem_filter.mp left).2
    exact absurd isMerge (by simp [(standsInside_iff.mp inside).2])

/-! ## What is written below a block -/

/-- What nested code of a block writes: the block, blocks below it, and none of them twice unless
handlers come back. -/
structure WrittenBelow (flow : ControlFlow) (block : Nat) (blocks : List Nat) : Prop where
  own : block ∈ blocks
  below : ∀ other ∈ blocks, flow.shape.graph.Dominates block other
  distinct_iff : blocks.Nodup ↔ ∀ other ∈ blocks, ¬ ComesBack flow other

/-- A block and what stands inside of it are written once if each part is and no part repeats,
since the parts have nothing in common. -/
theorem WrittenBelow.of_inner (wellBuilt : flow.WellBuilt)
    (reachable : flow.shape.graph.Reachable block) {inner : List Nat} {writes : Nat → List Nat}
    (immediate : ∀ other ∈ inner, flow.shape.immediateDominator other = some block)
    (distinct_iff : inner.Nodup ↔ ¬ ComesBack flow block)
    (written : ∀ other ∈ inner, WrittenBelow flow other (writes other)) :
    WrittenBelow flow block (block :: inner.flatMap writes) := by
  have strict {other : Nat} (member : other ∈ inner) :
      flow.shape.graph.StrictlyDominates block other :=
    strictlyDominates_of_immediateDominator wellBuilt (immediate other member)
  rw [wellBuilt.shape] at immediate
  have fresh : block ∉ inner.flatMap writes := by
    intro again
    obtain ⟨other, member, again⟩ := List.mem_flatMap.mp again
    exact (strict member).2 ((strict member).1.antisymm ((written other member).below block again))
  have apart {one other : Nat} (here : one ∈ inner) (there : other ∈ inner)
      (different : one ≠ other) : List.Disjoint (writes one) (writes other) := by
    intro node above above'
    have upper := (written one here).below node above
    have upper' := (written other there).below node above'
    exact different (Analysis.eq_of_immediateDominator (immediate one here) (immediate other there)
      upper upper')
  refine ⟨List.mem_cons_self, List.forall_mem_cons.mpr ⟨.refl reachable, ?_⟩, ?_⟩
  · intro node member
    obtain ⟨other, inside, member⟩ := List.mem_flatMap.mp member
    exact (strict inside).1.trans ((written other inside).below node member)
  · rw [List.nodup_cons, List.nodup_flatMap, List.forall_mem_cons]
    constructor
    · rintro ⟨_, each, disjoint⟩
      refine ⟨distinct_iff.mp (disjoint.imp_of_mem fun {one other} here there parts same => ?_), ?_⟩
      · exact parts (written one here).own (same ▸ (written other there).own)
      · intro node member
        obtain ⟨other, inside, member⟩ := List.mem_flatMap.mp member
        exact (written other inside).distinct_iff.mp (each other inside) node member
    · rintro ⟨here, below⟩
      refine ⟨fresh, fun other member => ?_, (distinct_iff.mpr here).imp_of_mem apart⟩
      exact (written other member).distinct_iff.mpr fun node inside =>
        below node (List.mem_flatMap.mpr ⟨other, member, inside⟩)

/-- Nested code writes the blocks below its block.  The induction is on the steps down, which are
enough for all that stands inside. -/
theorem written_treeOf (wellBuilt : flow.WellBuilt) (translated : Translated flow codes)
    (reducible : flow.shape.reducible = true) {fuel : Nat}
    (reachable : flow.shape.graph.Reachable block)
    (enough : flow.size ≤ fuel + flow.shape.graph.place block)
    (made : treeOf flow codes fuel block = .ok skeleton) :
    WrittenBelow flow block skeleton.blocks := by
  induction fuel generalizing block skeleton with
  | zero => cases made
  | succ fuel ih =>
    obtain ⟨exits, distinct, next, same⟩ := blocks_treeOf wellBuilt translated made
    have immediate (other : Nat) (member : other ∈ innerBlocks flow block exits) :=
      immediateDominator_of_mem_innerBlocks wellBuilt reducible reachable next member
    rw [same]
    refine .of_inner wellBuilt reachable immediate
      (nodup_innerBlocks_iff wellBuilt reachable distinct next) fun other member => ?_
    have strict := strictlyDominates_of_immediateDominator wellBuilt (immediate other member)
    have room : flow.size ≤ fuel + flow.shape.graph.place other := by
      have behind := strict.place_lt
      omega
    obtain ⟨body, made⟩ := exists_treeOf wellBuilt translated strict.1.1 room
    rw [writtenBy_of_eq_ok made]
    exact ih strict.1.1 room made

/-! ## Methods -/

variable {scope : Scope} {pool : ConstantPool} {code : Code}

/-- Nested code of a method writes only blocks that can be reached.  It writes all of them at most
once, and so no more blocks than there are, exactly if the handlers of no block that it writes come
back to a target inside of that block's code. -/
theorem structured_body_nodup_iff (prepared : prepare scope pool code = .ok (flow, codes))
    (reducible : flow.shape.reducible = true) :
    ∃ skeleton, bodyOf flow codes = .ok (.structured skeleton) ∧
      skeleton.blocks ⊆ reachableBlocks flow ∧
      (skeleton.blocks.Nodup ↔ ∀ block ∈ skeleton.blocks, ¬ ComesBack flow block) ∧
      ((∀ block ∈ skeleton.blocks, ¬ ComesBack flow block) →
        skeleton.blocks.length ≤ (reachableBlocks flow).length) := by
  have wellBuilt := wellBuilt_of_prepare prepared
  have translated := translated_of_prepare prepared
  obtain ⟨skeleton, made⟩ := exists_structuredCode wellBuilt translated
  have written := written_treeOf wellBuilt translated reducible wellBuilt.reachable_entry
    (Nat.le_add_right _ _) made
  have inside : skeleton.blocks ⊆ reachableBlocks flow := fun block member =>
    (mem_reachableBlocks wellBuilt).mpr (written.below block member).1
  exact ⟨skeleton, bodyOf_reducible reducible made, inside, written.distinct_iff,
    fun once => ((written.distinct_iff.mpr once).subperm inside).length_le⟩

/-- A division whose first and third handlers share their code, while the second throws the
exception again. -/
def safeDivision : Code where
  maxStack := 2
  maxLocals := 3
  bytecode := [0x1a, 0x1b, 0x6c, 0xac, 0x4d, 0x02, 0xac, 0xbf]
  exceptionTable :=
    [⟨0, 4, 4, some ⟨"java/lang/ArithmeticException"⟩⟩,
      ⟨0, 4, 7, some ⟨"java/lang/ClassCastException"⟩⟩,
      ⟨0, 4, 4, some ⟨"java/lang/NullPointerException"⟩⟩]
  lineNumbers := []

theorem structured_safeDivision_nodup_iff :
    ∃ flow codes, prepare lone .empty safeDivision = .ok (flow, codes) ∧
      flow.shape.reducible = true ∧
      ∃ skeleton, bodyOf flow codes = .ok (.structured skeleton) ∧
        skeleton.blocks ⊆ reachableBlocks flow ∧
        (skeleton.blocks.Nodup ↔ ∀ block ∈ skeleton.blocks, ¬ ComesBack flow block) ∧
        ((∀ block ∈ skeleton.blocks, ¬ ComesBack flow block) →
          skeleton.blocks.length ≤ (reachableBlocks flow).length) := by
  obtain ⟨flow, codes, prepared, reducible⟩ := exists_prepare lone .empty safeDivision
    (fun flow _ => flow.shape.reducible) (by decide +kernel)
  exact ⟨flow, codes, prepared, reducible, structured_body_nodup_iff prepared reducible⟩

/-- The shared code is written twice: three blocks can be reached, but four are written. -/
theorem structured_safeDivision_repeats :
    ∃ flow codes skeleton, prepare lone .empty safeDivision = .ok (flow, codes) ∧
      flow.shape.reducible = true ∧ bodyOf flow codes = .ok (.structured skeleton) ∧
      ¬ skeleton.blocks.Nodup ∧ (reachableBlocks flow).length < skeleton.blocks.length := by
  obtain ⟨flow, codes, prepared, computed⟩ := exists_prepare lone .empty safeDivision
    (fun flow codes => flow.shape.reducible && match structuredCode flow codes with
      | .ok skeleton => skeleton.blocks = [0, 1, 2, 1] && reachableBlocks flow = [0, 1, 2]
      | .error _ => false) (by decide +kernel)
  rw [Bool.and_eq_true] at computed
  obtain ⟨reducible, computed⟩ := computed
  split at computed
  next skeleton made =>
    rw [Bool.and_eq_true, decide_eq_true_eq, decide_eq_true_eq] at computed
    obtain ⟨written, reachable⟩ := computed
    refine ⟨flow, codes, skeleton, prepared, reducible, bodyOf_reducible reducible made, ?_, ?_⟩
    · simp [written]
    · simp [written, reachable]
  next => cases computed

end Bytescript.Translation
