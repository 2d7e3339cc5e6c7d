import Bytescript.Proofs.Script.Parts
import Bytescript.Proofs.Translation.Dispatch
import Bytescript.Proofs.Translation.Tree

/-!
# The parts of the code of methods

Both forms of the code of a method are put together from the code of its blocks and from jumps, and
jumps only name labels.  So the parts of the code are those of the blocks that were translated, and
what is done with exceptions if one of these blocks has a handler.
-/

set_option autoImplicit false

namespace Bytescript.Translation

open Bytescript.Flow Script

variable {flow : ControlFlow} {codes : Codes} {jump inline : Jump} {block : Nat}
  {skeleton : Skeleton} {good : Part → Prop}

/-! ## Parts that both forms share -/

/-- All parts of what code goes on with have a property. -/
def JumpsAll (good : Part → Prop) (jump : Jump) : Prop :=
  ∀ {target : Nat} {skeleton : Skeleton}, jump target = .ok skeleton → skeleton.All good

/-- A group for some classes has a handler for a class. -/
theorem HandlerGroup.exists_named_of_mem {handlers : List Handler} {group : HandlerGroup}
    (member : group ∈ ofHandlers handlers) (named : group.classes.isSome = true) :
    ∃ handler ∈ handlers, handler.catchType.isSome = true := by
  induction handlers generalizing group with
  | nil => cases member
  | cons handler rest ih =>
    rw [ofHandlers] at member
    split at member
    next =>
      cases List.mem_singleton.mp member
      exact ⟨handler, List.mem_cons_self, by simpa [ofHandler] using named⟩
    next first groups some =>
      rw [some] at ih
      split at member
      · rcases List.mem_cons.mp member with rfl | later
        · refine ⟨handler, List.mem_cons_self, ?_⟩
          cases catchType : handler.catchType with
          | none => simp [add, catchType] at named
          | some name => rfl
        · obtain ⟨other, listed, same⟩ := ih (.tail _ later) named
          exact ⟨other, .tail _ listed, same⟩
      · rcases List.mem_cons.mp member with rfl | later
        · exact ⟨handler, List.mem_cons_self, by simpa [ofHandler] using named⟩
        · obtain ⟨other, listed, same⟩ := ih later named
          exact ⟨other, .tail _ listed, same⟩

theorem all_recoveryOf (jumps : JumpsAll good jump) {groups : List HandlerGroup}
    {recovery : Recovery} (made : recoveryOf jump groups = .ok recovery)
    (tests : ∀ group ∈ groups, ∀ classes ∈ group.classes, good (.condition (isCaught classes))) :
    recovery.All good := by
  fun_induction recoveryOf jump groups generalizing recovery with
  | case1 =>
    cases made
    trivial
  | case2 target rest =>
    obtain ⟨body, here, made⟩ := bind_eq_ok.mp made
    cases made
    exact jumps here
  | case3 target classes rest ih =>
    obtain ⟨body, here, made⟩ := bind_eq_ok.mp made
    obtain ⟨otherwise, there, made⟩ := bind_eq_ok.mp made
    cases made
    obtain ⟨first, later⟩ := List.forall_mem_cons.mp tests
    exact ⟨first classes rfl, jumps here, ih there later⟩

theorem all_casesOf (jumps : JumpsAll good jump) {groups : List CaseGroup} {cases : Cases}
    (made : casesOf jump groups = .ok cases) : cases.All good := by
  induction groups generalizing cases with
  | nil =>
    cases made
    trivial
  | cons group rest ih =>
    obtain ⟨body, here, made⟩ := bind_eq_ok.mp made
    obtain ⟨behind, there, made⟩ := bind_eq_ok.mp made
    cases made
    exact ⟨jumps here, ih there⟩

theorem all_exitSkeleton {exit : Exit} (jumps : JumpsAll good jump)
    (made : exitSkeleton flow jump exit = .ok skeleton) (all : ∀ part ∈ exit.parts, good part) :
    skeleton.All good := by
  cases exit with
  | goto offset =>
    obtain ⟨target, _, made⟩ := bind_eq_ok.mp made
    exact jumps made
  | branch condition yes no =>
    obtain ⟨target, _, made⟩ := bind_eq_ok.mp made
    obtain ⟨otherwise, _, made⟩ := bind_eq_ok.mp made
    split at made
    · exact jumps made
    · obtain ⟨body, here, made⟩ := bind_eq_ok.mp made
      obtain ⟨body', there, made⟩ := bind_eq_ok.mp made
      cases made
      exact ⟨all _ (List.mem_singleton_self _), jumps here, jumps there⟩
  | switch source cases default =>
    obtain ⟨located, _, made⟩ := bind_eq_ok.mp made
    obtain ⟨first, _, made⟩ := bind_eq_ok.mp made
    obtain ⟨code, grouped, made⟩ := bind_eq_ok.mp made
    cases made
    exact ⟨all _ (List.mem_singleton_self _), all_casesOf jumps grouped⟩
  | leave value =>
    cases made
    cases value with
    | none => trivial
    | some source => exact all _ (List.mem_singleton_self _)
  | throw =>
    cases made
    trivial

/-! ## Both forms -/

/-- All parts of the blocks of a method have a property, and so has what their handlers do with
exceptions and, if one of them is for a class, the tests for classes. -/
structure BlocksAll (good : Part → Prop) (flow : ControlFlow) (codes : Codes) : Prop where
  parts : ∀ {block : Nat} {code : BlockCode}, codes.getD block none = some code →
    ∀ part ∈ code.parts, good part
  handling : ∀ {block : Nat} {code : BlockCode}, codes.getD block none = some code →
    flow.covering block ≠ [] → HandlingIs good
  tests : ∀ {block : Nat} {code : BlockCode}, codes.getD block none = some code →
    ∀ handler ∈ flow.covering block, handler.catchType.isSome = true →
      ∀ classes, good (.condition (isCaught classes))

namespace BlocksAll

variable {code : BlockCode}

theorem statements (all : BlocksAll good flow codes) (coded : codes.getD block none = some code) :
    ∀ statement ∈ code.statements, good (.statement statement) :=
  fun _ member => all.parts coded _ (List.mem_append_left _ (List.mem_map_of_mem member))

theorem exit (all : BlocksAll good flow codes) (coded : codes.getD block none = some code) :
    ∀ part ∈ code.exit.parts, good part :=
  fun _ member => all.parts coded _ (List.mem_append_right _ member)

/-- The recovery of a block has the parts that its handlers need. -/
theorem recovery (all : BlocksAll good flow codes) (coded : codes.getD block none = some code)
    (jumps : JumpsAll good jump) {recovery : Recovery}
    (made : recoveryOf jump (HandlerGroup.ofHandlers (flow.covering block)) = .ok recovery) :
    (recovery ≠ .rethrow → HandlingIs good) ∧ recovery.All good := by
  refine ⟨fun handles => all.handling coded fun none => ?_,
    all_recoveryOf jumps made fun group member classes named => ?_⟩
  · rw [none] at made
    cases made
    exact handles rfl
  · obtain ⟨handler, listed, some⟩ :=
      HandlerGroup.exists_named_of_mem member (Option.isSome_of_mem named)
    exact all.tests coded handler listed some classes

end BlocksAll

theorem all_guardedBlock (all : BlocksAll good flow codes) (jumps : JumpsAll good jump)
    (made : guardedBlock flow codes jump block = .ok skeleton) : skeleton.All good := by
  obtain ⟨code, recovery, exit, coded, handled, left, rfl⟩ := guardedBlock_eq_ok.mp made
  exact ⟨⟨all.statements coded, all.recovery coded jumps handled⟩,
    all_exitSkeleton jumps left (all.exit coded)⟩

theorem all_jumpFrom (trees : JumpsAll good inline) (block : Nat) :
    JumpsAll good (jumpFrom flow inline block) := by
  intro target skeleton made
  rcases jumpFrom_eq_ok made with ⟨_, rfl⟩ | ⟨_, _, rfl⟩ | ⟨_, _, made⟩
  · trivial
  · trivial
  · exact trees made

theorem all_withMerges (trees : JumpsAll good inline) {body : Skeleton} {merges : List Nat}
    (all : body.All good) (made : withMerges flow inline body merges = .ok skeleton) :
    skeleton.All good := by
  induction merges generalizing body with
  | nil =>
    cases made
    exact all
  | cons merge rest ih =>
    obtain ⟨after, here, made⟩ := withMerges_cons_eq_ok.mp made
    refine ih ?_ made
    exact ⟨all, trees here⟩

theorem all_treeOf (all : BlocksAll good flow codes) (fuel : Nat) :
    JumpsAll good (treeOf flow codes fuel) := by
  induction fuel with
  | zero =>
    intro block skeleton made
    cases made
  | succ fuel ih =>
    intro block skeleton made
    obtain ⟨guarded, inner, here, merged, rfl⟩ := treeOf_succ_eq_ok.mp made
    have inside := all_withMerges ih (all_guardedBlock all (all_jumpFrom ih block) here) merged
    split
    · exact inside
    · exact inside

theorem all_dispatchJump : JumpsAll good (dispatchJump flow) := by
  intro target skeleton made
  cases made
  trivial

theorem all_dispatchedCode (all : BlocksAll good flow codes) {dispatch : Dispatch}
    (made : dispatchedCode flow codes = .ok dispatch) : dispatch.All good := by
  obtain ⟨_, cases, recoveries⟩ := dispatchedCode_eq_ok.mp made
  -- Every block with a recovery is a case as well, so it has code.
  have coded {block : Nat} (listed : block ∈ reachableBlocks flow) :
      ∃ code, codes.getD block none = some code := by
    obtain ⟨_, _, made⟩ := exists_of_forall₂_left (mapM_eq_ok.mp cases) listed
    obtain ⟨code, found, _⟩ := bind_eq_ok.mp made
    exact ⟨code, codeOf_eq_ok.mp found⟩
  have recovered {entry : Nat × Recovery} (member : entry ∈ dispatch.recoveries) :
      HandlingIs good ∧ entry.2.All good := by
    obtain ⟨block, listed, made⟩ := exists_of_forall₂_right (mapM_eq_ok.mp recoveries) member
    obtain ⟨listed, guarded⟩ := List.mem_filter.mp listed
    obtain ⟨code, coded⟩ := coded listed
    obtain ⟨recovery, handled, made⟩ := bind_eq_ok.mp made
    cases made
    refine ⟨all.handling coded fun none => ?_, (all.recovery coded all_dispatchJump handled).2⟩
    simp [none] at guarded
  refine ⟨fun entry member => ?_, fun some => ?_, fun entry member => (recovered member).2⟩
  · obtain ⟨block, _, made⟩ := exists_of_forall₂_right (mapM_eq_ok.mp cases) member
    obtain ⟨code, found, made⟩ := bind_eq_ok.mp made
    obtain ⟨exit, left, made⟩ := bind_eq_ok.mp made
    cases made
    have coded := codeOf_eq_ok.mp found
    exact ⟨⟨all.statements coded, fun handles => absurd rfl handles, trivial⟩,
      all_exitSkeleton all_dispatchJump left (all.exit coded)⟩
  · obtain ⟨entry, member⟩ := List.exists_mem_of_ne_nil _ some
    exact (recovered member).1

/-- All parts of the code of a method are those of its blocks and of their handlers. -/
theorem all_bodyOf (all : BlocksAll good flow codes) {body : Body}
    (made : bodyOf flow codes = .ok body) : body.All good := by
  rw [bodyOf] at made
  split at made
  · obtain ⟨skeleton, nested, same⟩ := bind_eq_ok.mp made
    cases same
    exact all_treeOf all flow.size nested
  · obtain ⟨dispatch, beside, same⟩ := bind_eq_ok.mp made
    cases same
    exact all_dispatchedCode all beside

end Bytescript.Translation
