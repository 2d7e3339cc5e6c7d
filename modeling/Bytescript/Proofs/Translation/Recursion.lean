import Bytescript.Proofs.Flow.Loops
import Bytescript.Proofs.Translation.HandlerOrder
import Bytescript.Proofs.Translation.Method
import Bytescript.Proofs.Translation.Tree
import Mathlib.Data.Set.Card

/-!
# Nested code comes to an end

The nested code of a block is made of the code of other blocks: its merges, and the blocks that it
goes on with and that stand inside of it.  Each of them comes later in the order, whether the graph
is reducible or not, so what is asked for cannot go round.  Only blocks that can be reached have a
place in the order.  A table with code for others, and with an exit that leads there against the
flow, could ask for one of these inside of its own code; that is the only way not to come to an end.
Exits of code that was translated lead to successors.

The bound on the steps down is never met where they come to an end: the code is the same whatever
stands there instead, and so the only solution of the equation that the recursion is.
-/

set_option autoImplicit false

namespace Bytescript.Translation

open Bytescript.Flow Script Relation

variable {flow : ControlFlow} {codes : Codes} {one other : Jump} {block target : Nat}

/-! ## One step down -/

/-- The nested code of a block, given the code of the blocks that stand in it. -/
def treeWith (flow : ControlFlow) (codes : Codes) (inline : Jump) : Jump := fun block => do
  let body ← guardedBlock flow codes (jumpFrom flow inline block) block
  let body ← withMerges flow inline body (mergesOf flow block)
  return if flow.shape.isLoopHeader block then .loop (flow.start block) body else body

theorem treeOf_succ (flow : ControlFlow) (codes : Codes) (fuel : Nat) :
    treeOf flow codes (fuel + 1) = treeWith flow codes (treeOf flow codes fuel) := rfl

theorem treeOf_eq_iterate (flow : ControlFlow) (codes : Codes) (fuel : Nat) :
    treeOf flow codes fuel = (treeWith flow codes)^[fuel] (treeOf flow codes 0) := by
  induction fuel with
  | zero => rfl
  | succ fuel ih => rw [treeOf_succ, ih, Function.iterate_succ_apply']

/-- The exit of a block leads to the start of another one. -/
def ExitLeadsTo (flow : ControlFlow) (exit : Exit) (target : Nat) : Prop :=
  ∃ offset ∈ exit.targets, blockAt? flow.blocks offset = some target

/-- The code of a block is made with that of another one: a merge, or a block inside of it that a
handler is or that its exit leads to. -/
def Nests (flow : ControlFlow) (codes : Codes) (block target : Nat) : Prop :=
  ∃ code, codes.getD block none = some code ∧
    (target ∈ mergesOf flow block ∨ target ∈ handlersInside flow block ∨
      (ExitLeadsTo flow code.exit target ∧ standsInside flow block target = true))

/-! ## Nothing else is asked for -/

theorem recoveryOf_congr {groups : List HandlerGroup}
    (same : ∀ target ∈ testedTargets groups, one target = other target) :
    recoveryOf one groups = recoveryOf other groups := by
  fun_induction testedTargets groups with
  | case1 => rfl
  | case2 target rest => rw [recoveryOf, recoveryOf, same target List.mem_cons_self]
  | case3 target classes rest ih =>
    obtain ⟨here, later⟩ := List.forall_mem_cons.mp same
    rw [recoveryOf, recoveryOf, here, ih later]

theorem casesOf_congr {groups : List CaseGroup}
    (same : ∀ target ∈ groups.map CaseGroup.target, one target = other target) :
    casesOf one groups = casesOf other groups := by
  induction groups with
  | nil => rfl
  | cons group rest ih =>
    obtain ⟨here, later⟩ := List.forall_mem_cons.mp same
    rw [casesOf, casesOf, here, ih later]

theorem exitSkeleton_congr {exit : Exit}
    (same : ∀ target, ExitLeadsTo flow exit target → one target = other target) :
    exitSkeleton flow one exit = exitSkeleton flow other exit := by
  cases exit with
  | goto offset =>
    refine bind_congr_ok fun target found => ?_
    exact same target ⟨offset, List.mem_cons_self, blockStarting_eq_ok.mp found⟩
  | branch condition yes no =>
    refine bind_congr_ok fun target found => bind_congr_ok fun otherwise found' => ?_
    rw [same target ⟨yes, List.mem_cons_self, blockStarting_eq_ok.mp found⟩,
      same otherwise ⟨no, .tail _ List.mem_cons_self, blockStarting_eq_ok.mp found'⟩]
  | switch key cases default =>
    refine bind_congr_ok fun located found => bind_congr_ok fun first found' => ?_
    rw [casesOf_congr fun target member => same target ?_]
    exact exists_offset_of_mem_ofCases key (locate_eq_ok.mp found) (blockStarting_eq_ok.mp found')
      member
  | leave value => rfl
  | throw => rfl

theorem jumpFrom_congr (same : standsInside flow block target = true → one target = other target) :
    jumpFrom flow one block target = jumpFrom flow other block target := by
  rw [jumpFrom, jumpFrom]
  split
  · rfl
  next ahead =>
    split
    · rfl
    next single =>
      exact same (standsInside_iff.mpr ⟨Bool.not_eq_true _ ▸ ahead, Bool.not_eq_true _ ▸ single⟩)

theorem withMerges_congr {merges : List Nat} (body : Skeleton)
    (same : ∀ target ∈ merges, one target = other target) :
    withMerges flow one body merges = withMerges flow other body merges := by
  induction merges generalizing body with
  | nil => rfl
  | cons merge rest ih =>
    obtain ⟨here, later⟩ := List.forall_mem_cons.mp same
    rw [withMerges, withMerges, here]
    exact bind_congr_ok fun after _ => ih _ later

/-- The code of a block depends on the code of the blocks that it nests only. -/
theorem treeWith_congr
    (same : ∀ target, Nests flow codes block target → one target = other target) :
    treeWith flow codes one block = treeWith flow codes other block := by
  rw [treeWith, treeWith, guardedBlock, guardedBlock, bind_assoc, bind_assoc]
  refine bind_congr_ok fun code coded => ?_
  have coded := codeOf_eq_ok.mp coded
  have handled : recoveryOf (jumpFrom flow one block)
      (HandlerGroup.ofHandlers (flow.covering block)) =
        recoveryOf (jumpFrom flow other block) (HandlerGroup.ofHandlers (flow.covering block)) :=
    recoveryOf_congr fun target tested => jumpFrom_congr fun inside =>
      same target ⟨code, coded, .inr (.inl (List.mem_filter.mpr ⟨tested, inside⟩))⟩
  have left : exitSkeleton flow (jumpFrom flow one block) code.exit =
      exitSkeleton flow (jumpFrom flow other block) code.exit :=
    exitSkeleton_congr fun target leads => jumpFrom_congr fun inside =>
      same target ⟨code, coded, .inr (.inr ⟨leads, inside⟩)⟩
  rw [handled, left]
  refine bind_congr_ok fun body _ => ?_
  rw [withMerges_congr body fun target merge => same target ⟨code, coded, .inl merge⟩]

/-! ## What is asked for comes later -/

section Order

variable {instructions : List Placed} {table : List ExceptionEntry} {codeLength : Nat}

/-- An edge that does not go back leads to a later place.  Blocks that cannot be reached have their
place behind all others. -/
theorem idxOf_lt_of_not_isBackward (builtFrom : flow.BuiltFrom instructions table codeLength)
    (listed : block ∈ flow.shape.order) (ahead : flow.shape.isBackward block target = false) :
    flow.shape.order.idxOf block < flow.shape.order.idxOf target := by
  by_cases behind : target ∈ flow.shape.order
  · rw [← Bool.not_eq_true, builtFrom.shape, Analysis.isBackward_iff] at ahead
    rw [builtFrom.order_eq, Graph.mem_reversePostorder] at listed behind
    rw [builtFrom.order_eq]
    by_contra back
    exact ahead ⟨listed, behind, not_lt.mp back⟩
  · rw [List.idxOf_eq_length_iff.mpr behind]
    exact List.idxOf_lt_length_of_mem listed

theorem Nests.forward (builtFrom : flow.BuiltFrom instructions table codeLength)
    (nests : Nests flow codes block target) (listed : block ∈ flow.shape.order) :
    flow.shape.order.idxOf block < flow.shape.order.idxOf target := by
  obtain ⟨_, _, merge | handled | ⟨_, inside⟩⟩ := nests
  · rw [builtFrom.order_eq]
    exact (strictlyDominates_of_merge builtFrom.shape merge).place_lt
  · have inside := (mem_handlersInside handled).2
    exact idxOf_lt_of_not_isBackward builtFrom listed (standsInside_iff.mp inside).1
  · exact idxOf_lt_of_not_isBackward builtFrom listed (standsInside_iff.mp inside).1

theorem Nests.lt_size (builtFrom : flow.BuiltFrom instructions table codeLength)
    (nests : Nests flow codes block target) : target < flow.size := by
  obtain ⟨_, _, merge | handled | ⟨⟨_, _, starts⟩, _⟩⟩ := nests
  · rw [← builtFrom.size]
    exact (strictlyDominates_of_merge builtFrom.shape merge).1.1.lt_size
  · obtain ⟨⟨handler, covers, rfl⟩, _⟩ := mem_handlersInside handled
    exact builtFrom.covering_lt covers
  · exact blockAt?_lt starts

/-- Places rise along what is asked for, until a block that cannot be reached. -/
theorem idxOf_lt_or_exists_notMem (builtFrom : flow.BuiltFrom instructions table codeLength)
    (listed : block ∈ flow.shape.order) (path : TransGen (Nests flow codes) block target) :
    flow.shape.order.idxOf block < flow.shape.order.idxOf target ∨
      ∃ middle, middle ∉ flow.shape.order ∧ ReflTransGen (Nests flow codes) block middle ∧
        ReflTransGen (Nests flow codes) middle target := by
  induction path with
  | single nests => exact .inl (nests.forward builtFrom listed)
  | @tail last _ path nests ih =>
    by_cases known : last ∈ flow.shape.order
    · rcases ih with before | ⟨middle, unknown, here, there⟩
      · exact .inl (before.trans (nests.forward builtFrom known))
      · exact .inr ⟨middle, unknown, here, there.tail nests⟩
    · exact .inr ⟨last, known, path.to_reflTransGen, .single nests⟩

/-! ## Coming to an end -/

/-- Making the nested code of a block comes to an end: what it asks for does, and so on. -/
def Ends (flow : ControlFlow) (codes : Codes) (block : Nat) : Prop :=
  Acc (fun inner outer => Nests flow codes outer inner) block

/-- All blocks whose code is part of that of a block. -/
def below (flow : ControlFlow) (codes : Codes) (block : Nat) : Set Nat :=
  {target | ReflTransGen (Nests flow codes) block target}

theorem Ends.of_mem_below (ends : Ends flow codes block)
    (inside : target ∈ below flow codes block) : Ends flow codes target := by
  induction inside with
  | refl => exact ends
  | tail _ nests ih => exact ih.inv nests

theorem Ends.not_cycle (ends : Ends flow codes block) :
    ¬ TransGen (Nests flow codes) block block := by
  induction ends with
  | intro block _ ih =>
    intro cycle
    obtain ⟨target, nests, back⟩ := TransGen.head'_iff.mp cycle
    exact ih target nests (TransGen.tail' back nests)

theorem below_subset (builtFrom : flow.BuiltFrom instructions table codeLength) (block : Nat) :
    below flow codes block ⊆ ↑(insert block (Finset.range flow.size)) := by
  intro target inside
  rcases inside.cases_tail with rfl | ⟨_, _, nests⟩
  · exact Finset.mem_insert_self _ _
  · exact Finset.mem_insert_of_mem (Finset.mem_range.mpr (nests.lt_size builtFrom))

theorem below_finite (builtFrom : flow.BuiltFrom instructions table codeLength) (block : Nat) :
    (below flow codes block).Finite :=
  (Finset.finite_toSet _).subset (below_subset builtFrom block)

/-- A block inside of another one has less below it, unless both are inside of each other. -/
theorem ncard_below_lt (builtFrom : flow.BuiltFrom instructions table codeLength)
    (nests : Nests flow codes block target) (once : ¬ TransGen (Nests flow codes) block block) :
    (below flow codes target).ncard < (below flow codes block).ncard := by
  refine Set.ncard_lt_ncard ⟨fun other inside => inside.head nests, fun all => ?_⟩
    (below_finite builtFrom block)
  exact once (TransGen.head' nests (all ReflTransGen.refl))

theorem ends_of_acyclic (builtFrom : flow.BuiltFrom instructions table codeLength)
    (acyclic : ∀ target ∈ below flow codes block, ¬ TransGen (Nests flow codes) target target) :
    Ends flow codes block := by
  -- A block is not below what it nests, so with every step down there is less below.
  induction count : (below flow codes block).ncard using Nat.strong_induction_on
    generalizing block with
  | _ count ih =>
    subst count
    refine .intro block fun target nests => ?_
    exact ih _ (ncard_below_lt builtFrom nests (acyclic block .refl))
      (fun other inside => acyclic other (inside.head nests)) rfl

/-- Making the code of a block comes to an end unless a block that cannot be reached is inside of
its own code. -/
theorem ends_iff (builtFrom : flow.BuiltFrom instructions table codeLength) :
    Ends flow codes block ↔ ∀ target, ReflTransGen (Nests flow codes) block target →
      target ∉ flow.shape.order → ¬ TransGen (Nests flow codes) target target := by
  constructor
  · intro ends target inside _
    exact (ends.of_mem_below inside).not_cycle
  · intro acyclic
    refine ends_of_acyclic builtFrom fun target inside cycle => ?_
    by_cases known : target ∈ flow.shape.order
    · rcases idxOf_lt_or_exists_notMem builtFrom known cycle with
        before | ⟨middle, unknown, here, there⟩
      · exact lt_irrefl _ before
      · exact acyclic middle (inside.trans here) unknown
          ((TransGen.trans_right there cycle).trans_left here)
    · exact acyclic target inside known cycle

/-- No exit of a block that can be reached leads to the code of one that cannot. -/
def KeepsToOrder (flow : ControlFlow) (codes : Codes) : Prop :=
  ∀ block ∈ flow.shape.order, ∀ code, codes.getD block none = some code →
    ∀ target, ExitLeadsTo flow code.exit target →
      target ∈ flow.shape.order ∨ codes.getD target none = none

theorem Nests.mem_order_or (builtFrom : flow.BuiltFrom instructions table codeLength)
    (keeps : KeepsToOrder flow codes) (nests : Nests flow codes block target)
    (listed : block ∈ flow.shape.order) :
    target ∈ flow.shape.order ∨ codes.getD target none = none := by
  obtain ⟨code, coded, merge | handled | ⟨leads, _⟩⟩ := nests
  · rw [builtFrom.order_eq, Graph.mem_reversePostorder]
    exact .inl (strictlyDominates_of_merge builtFrom.shape merge).1.1
  · have covers := (mem_handlersInside handled).1
    exact .inl (builtFrom.mem_order.mpr ((builtFrom.mem_order.mp listed).tail (.inr covers)))
  · exact keeps block listed code coded target leads

theorem ends_of_keepsToOrder (builtFrom : flow.BuiltFrom instructions table codeLength)
    (keeps : KeepsToOrder flow codes) (listed : block ∈ flow.shape.order) :
    Ends flow codes block := by
  have inside {target : Nat} (path : ReflTransGen (Nests flow codes) block target) :
      target ∈ flow.shape.order ∨ codes.getD target none = none := by
    induction path with
    | refl => exact .inl listed
    | tail _ nests ih =>
      rcases ih with known | bare
      · exact nests.mem_order_or builtFrom keeps known
      · obtain ⟨code, coded, _⟩ := nests
        cases bare.symm.trans coded
  refine (ends_iff builtFrom).mpr fun target path unknown cycle => ?_
  obtain ⟨_, ⟨code, coded, _⟩, _⟩ := TransGen.head'_iff.mp cycle
  cases ((inside path).resolve_left unknown).symm.trans coded

/-! ## How many steps down there are -/

/-- With as many steps as there are blocks below, nothing is left to what stands at the bottom. -/
theorem iterate_treeWith_eq (builtFrom : flow.BuiltFrom instructions table codeLength)
    (ends : Ends flow codes block) {depth : Nat}
    (enough : (below flow codes block).ncard ≤ depth) (one other : Jump) :
    (treeWith flow codes)^[depth] one block = (treeWith flow codes)^[depth] other block := by
  induction depth generalizing block with
  | zero =>
    have some : 0 < (below flow codes block).ncard :=
      (Set.ncard_pos (below_finite builtFrom block)).mpr ⟨block, .refl⟩
    omega
  | succ depth ih =>
    rw [Function.iterate_succ_apply', Function.iterate_succ_apply']
    refine treeWith_congr fun target nests => ih (ends.inv nests) ?_
    have fewer := ncard_below_lt builtFrom nests ends.not_cycle
    omega

theorem iterate_treeWith_entry (builtFrom : flow.BuiltFrom instructions table codeLength)
    (ends : Ends flow codes ControlFlow.entry) {depth : Nat} (enough : flow.size ≤ depth)
    (bottom : Jump) :
    (treeWith flow codes)^[depth] bottom ControlFlow.entry = structuredCode flow codes := by
  have first : ControlFlow.entry ∈ Finset.range flow.size :=
    Finset.mem_range.mpr builtFrom.nonempty
  have inside : below flow codes ControlFlow.entry ⊆ ↑(Finset.range flow.size) :=
    Finset.insert_eq_of_mem first ▸ below_subset builtFrom ControlFlow.entry
  have few := Set.ncard_le_ncard inside (Finset.finite_toSet _)
  rw [Set.ncard_coe_finset, Finset.card_range] at few
  rw [structuredCode, treeOf_eq_iterate, ← Nat.add_sub_cancel' enough, Function.iterate_add_apply]
  exact iterate_treeWith_eq builtFrom ends few _ _

/-- The code of a method is the only solution of the equation that nested code is defined by, if
making it comes to an end. -/
theorem structuredCode_unique (builtFrom : flow.BuiltFrom instructions table codeLength)
    (ends : Ends flow codes ControlFlow.entry) {tree : Jump}
    (solves : treeWith flow codes tree = tree) :
    tree ControlFlow.entry = structuredCode flow codes := by
  rw [← iterate_treeWith_entry builtFrom ends le_rfl tree, Function.iterate_fixed solves]

/-- How the nested code of blocks of a flow is made, for any table of their code. -/
structure NestsForward (flow : ControlFlow) : Prop where
  /-- The code of a block depends on the code of the blocks that it nests only. -/
  asks : ∀ (codes : Codes) (one other : Jump) (block : Nat),
    (∀ target, Nests flow codes block target → one target = other target) →
      treeWith flow codes one block = treeWith flow codes other block
  /-- Those come later in the order, behind which blocks that cannot be reached have their place. -/
  forward : ∀ (codes : Codes) (block target : Nat), block ∈ flow.shape.order →
    Nests flow codes block target →
      flow.shape.order.idxOf block < flow.shape.order.idxOf target
  /-- All blocks that can be reached come to an end, as long as no exit leads from them to the code
  of a block that cannot be. -/
  ends : ∀ codes : Codes, KeepsToOrder flow codes →
    ∀ block ∈ flow.shape.order, Ends flow codes block
  /-- For any other table, too, all that can be in the way is a block that cannot be reached and is
  inside of its own code. -/
  ends_iff : ∀ (codes : Codes) (block : Nat), Ends flow codes block ↔
    ∀ target, ReflTransGen (Nests flow codes) block target → target ∉ flow.shape.order →
      ¬ TransGen (Nests flow codes) target target
  /-- The code of a method then does not depend on what stands below as many steps as there are
  blocks. -/
  enough : ∀ codes : Codes, Ends flow codes ControlFlow.entry →
    ∀ (depth : Nat) (bottom : Jump), flow.size ≤ depth →
      (treeWith flow codes)^[depth] bottom ControlFlow.entry = structuredCode flow codes
  /-- It is what every solution of the equation that nested code is defined by gives the entry. -/
  unique : ∀ codes : Codes, Ends flow codes ControlFlow.entry →
    ∀ tree : Jump, treeWith flow codes tree = tree →
      tree ControlFlow.entry = structuredCode flow codes

/-- A loop behind the end of a method. -/
def strayLoop : List Placed := [⟨0, 0xb1, .leave none⟩, ⟨1, 0xa7, .goto 1⟩]

/-- A table of code that sends the entry into that loop, against the flow. -/
def strayCodes : Codes := #[some ⟨[], .goto 1⟩, some ⟨[], .goto 1⟩]

/-- Where the code of the block that stands inside fails, so does the code around it. -/
theorem treeWith_eq_error {statements : List Statement} {offset : Nat} {failure : Failure}
    {inline : Jump} (coded : codes.getD block none = some ⟨statements, .goto offset⟩)
    (bare : flow.covering block = []) (starts : blockAt? flow.blocks offset = some target)
    (inside : standsInside flow block target = true) (fails : inline target = .error failure) :
    treeWith flow codes inline block = .error failure := by
  obtain ⟨ahead, single⟩ := standsInside_iff.mp inside
  have jumps : jumpFrom flow inline block target = .error failure := by
    simp [jumpFrom, ahead, single, fails]
  have left : exitSkeleton flow (jumpFrom flow inline block) (.goto offset) = .error failure := by
    rw [exitSkeleton, blockStarting_eq_ok.mpr starts]
    exact jumps
  rw [treeWith, guardedBlock, codeOf_eq_ok.mpr coded, bare]
  simp only [HandlerGroup.ofHandlers, recoveryOf, bind, Except.bind, left]

end Order

/-! ## Methods -/

/-- The nested code of a method comes to an end at every block that can be reached. -/
theorem ends_of_prepare {scope : Scope} {pool : ConstantPool} {code : Code}
    (prepared : prepare scope pool code = .ok (flow, codes)) (listed : block ∈ flow.shape.order) :
    Ends flow codes block := by
  obtain ⟨_, _, built, _⟩ := prepare_eq_ok.mp prepared
  have builtFrom := ControlFlow.build_builtFrom built
  refine ends_of_keepsToOrder builtFrom ?_ listed
  rintro source known own coded target ⟨offset, goes, starts⟩
  obtain ⟨next, follows, same⟩ := (translated_of_prepare prepared).exists_next
    (wellBuilt_of_prepare prepared) coded goes
  cases starts.symm.trans same
  exact .inl (builtFrom.mem_order.mpr ((builtFrom.mem_order.mp known).tail (.inl follows)))

end Bytescript.Translation
