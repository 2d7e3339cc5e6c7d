import Bytescript.Proofs.Execution.Following
import Bytescript.Proofs.Translation.Scope
import Bytescript.Proofs.Translation.Tree

/-!
# Nested code follows the flow

While nested code runs, the frames around it hold the loops and labelled parts that the code needs,
and each of these frames in turn has around it what its own code needs.  So a jump finds the frame
that it is meant for, however deep it stands, and what runs then is the code of its target with all
that it needs around it.
-/

set_option autoImplicit false

namespace Bytescript.Translation

open Bytescript.Flow Script Execution

variable {Thrown : Type} {oracle : Oracle Thrown} {flow : ControlFlow} {codes : Codes}
  {inline : Jump} {block target : Nat} {frames : List (Frame Thrown)} {next : ℕ}
  {history : History Thrown}

/-! ## The code of blocks -/

/-- A piece of code is the nested code of a block. -/
def IsTree (flow : ControlFlow) (codes : Codes) (block : Nat) (skeleton : Skeleton) : Prop :=
  ∃ fuel, treeOf flow codes fuel block = .ok skeleton

/-- A jump gives the nested code of blocks. -/
def Inlines (flow : ControlFlow) (codes : Codes) (inline : Jump) : Prop :=
  ∀ {target : Nat} {skeleton : Skeleton}, inline target = .ok skeleton →
    IsTree flow codes target skeleton

/-- A piece of code is a block with how it is left, inside of the nested code of that block. -/
def IsGuarded (flow : ControlFlow) (codes : Codes) (block : Nat) (skeleton : Skeleton) : Prop :=
  ∃ inline, Inlines flow codes inline ∧
    guardedBlock flow codes (jumpFrom flow inline block) block = .ok skeleton

/-- A piece of code is the nested code of a block without the loop around it. -/
def IsBody (flow : ControlFlow) (codes : Codes) (block : Nat) (skeleton : Skeleton) : Prop :=
  ∃ inline guarded, Inlines flow codes inline ∧
    guardedBlock flow codes (jumpFrom flow inline block) block = .ok guarded ∧
    withMerges flow inline guarded (mergesOf flow block) = .ok skeleton

theorem IsTree.exists_body {skeleton : Skeleton} (tree : IsTree flow codes block skeleton) :
    ∃ inner, IsBody flow codes block inner ∧
      skeleton = if flow.shape.isLoopHeader block then .loop (flow.start block) inner
        else inner := by
  obtain ⟨fuel, made⟩ := tree
  cases fuel with
  | zero => cases made
  | succ fuel =>
    obtain ⟨guarded, inner, here, there, same⟩ := treeOf_succ_eq_ok.mp made
    exact ⟨inner, ⟨treeOf flow codes fuel, guarded, fun made => ⟨fuel, made⟩, here, there⟩, same⟩

/-! ## Frames -/

/-- The loop of a block is among the frames. -/
def HasLoop (flow : ControlFlow) (frames : List (Frame Thrown)) (header : Nat) : Prop :=
  ∃ body, .loop (flow.start header) body ∈ frames

/-- The labelled part in front of a merge is among the frames. -/
def HasPart (flow : ControlFlow) (frames : List (Frame Thrown)) (merge : Nat) : Prop :=
  .labelled (flow.start merge) ∈ frames

/-- The frames around nested code.  Behind the frame of a loop or of a labelled part stands what
the code that runs next needs. -/
inductive Around (flow : ControlFlow) (codes : Codes) : List (Frame Thrown) → Prop where
  | nothing : Around flow codes []
  | loop {header : Nat} {body : Skeleton} {frames : List (Frame Thrown)} :
    flow.shape.graph.Reachable header → flow.shape.isLoopHeader header = true →
    IsBody flow codes header body →
    Provides flow.shape (HasLoop flow frames) (HasPart flow frames) header →
    Around flow codes frames → Around flow codes (.loop (flow.start header) body :: frames)
  | part {merge : Nat} {after : Skeleton} {frames : List (Frame Thrown)} :
    flow.shape.graph.Reachable merge → IsTree flow codes merge after →
    Provides flow.shape (HasLoop flow frames) (HasPart flow frames) merge →
    Around flow codes frames →
    Around flow codes (.labelled (flow.start merge) :: .next after :: frames)
  /-- Inside of a switch. -/
  | cases {behind : Cases} {frames : List (Frame Thrown)} :
    Around flow codes frames → Around flow codes (.cases behind :: frames)
  /-- Inside of the handling of an exception, in front of the exit of the block. -/
  | caught {exit : Skeleton} {frames : List (Frame Thrown)} :
    Around flow codes frames → Around flow codes (.caught :: .next exit :: frames)

/-- The machine is about to run a block inside of its nested code. -/
def AtBlock (flow : ControlFlow) (codes : Codes) (block : Nat) (state : State Thrown) : Prop :=
  flow.shape.graph.Reachable block ∧ ∃ guarded frames next history,
    IsGuarded flow codes block guarded ∧ Around flow codes frames ∧
    Inside flow.shape (HasLoop flow frames) (HasPart flow frames) block ∧
    state = ⟨.run guarded, frames, next, history⟩

theorem Around.uncaught (around : Around flow codes frames) :
    ∀ frame ∈ frames, ∀ dispatch, frame ≠ .guarded dispatch := by
  induction around with
  | nothing => simp
  | loop _ _ _ _ _ ih => simpa using ih
  | part _ _ _ _ ih => simpa using ih
  | cases _ ih => simpa using ih
  | caught _ ih => simpa using ih

/-! ## Entering the code of a block -/

/-- The labelled parts in front of merges are entered from the last merge to the first.  Behind
each of them stands what its merge needs: the parts in front of later merges. -/
theorem run_withMerges (oracle : Oracle Thrown) (next : ℕ) (history : History Thrown)
    (wellBuilt : flow.WellBuilt) {body skeleton : Skeleton} {merges : List Nat}
    (inlines : Inlines flow codes inline)
    (made : withMerges flow inline body merges = .ok skeleton)
    (last : LastMerges flow block merges) (around : Around flow codes frames)
    (inside : Inside flow.shape (HasLoop flow frames)
      (fun merge => HasPart flow frames merge ∨ merge ∈ mergesOf flow block) block) :
    ∃ inner, Around flow codes inner ∧ frames ⊆ inner ∧
      (∀ merge ∈ merges, HasPart flow inner merge) ∧
      Reaches oracle ⟨.run skeleton, frames, next, history⟩ ⟨.run body, inner, next, history⟩ := by
  induction merges generalizing body with
  | nil =>
    cases made
    exact ⟨frames, around, List.Subset.refl _, by simp, .refl⟩
  | cons merge rest ih =>
    obtain ⟨after, here, made⟩ := withMerges_cons_eq_ok.mp made
    have member := last.listed merge List.mem_cons_self
    obtain ⟨outer, around, wider, parts, reaches⟩ := ih made last.tail
    have provides : Provides flow.shape (HasLoop flow outer) (HasPart flow outer) merge := by
      have wide : Inside flow.shape (HasLoop flow outer)
          (fun merge => HasPart flow frames merge ∨ merge ∈ mergesOf flow block) block :=
        ⟨fun header dominates => (inside.loops header dominates).imp fun _ found => wider found,
          inside.merges⟩
      refine wide.merged wellBuilt.shape ((mem_mergesOf wellBuilt).mp member).1 ?_
      rintro other (outside | known) behind
      · exact wider outside
      · exact parts other (last.mem_rest known behind)
    have reachable := (strictlyDominates_of_mem_mergesOf wellBuilt member).1.1
    have enters : Moves oracle
        ⟨.run (.labelled (flow.start merge) body), .next after :: outer, next, history⟩
        ⟨.run body, .labelled (flow.start merge) :: .next after :: outer, next, history⟩ :=
      ⟨trivial, rfl⟩
    refine ⟨_, .part reachable (inlines here) provides around, ?_, ?_,
      (reaches.tail (andThen_moves _ _)).tail enters⟩
    · exact fun frame found => .tail _ (.tail _ (wider found))
    · refine List.forall_mem_cons.mpr ⟨List.mem_cons_self, fun other later => ?_⟩
      exact .tail _ (.tail _ (parts other later))

/-- The machine gets to a block from code that begins with it. -/
def Enters (oracle : Oracle Thrown) (flow : ControlFlow) (codes : Codes) (block : Nat)
    (state : State Thrown) : Prop :=
  ∃ after, Reaches oracle state after ∧ AtBlock flow codes block after ∧
    after.history = state.history

theorem Enters.head {one two : State Thrown} (enters : Enters oracle flow codes block two)
    (reaches : Reaches oracle one two) (same : two.history = one.history) :
    Enters oracle flow codes block one := by
  obtain ⟨after, further, atBlock, kept⟩ := enters
  exact ⟨after, reaches.trans further, atBlock, kept.trans same⟩

theorem enters_body (wellBuilt : flow.WellBuilt) {skeleton : Skeleton}
    (body : IsBody flow codes block skeleton) (reachable : flow.shape.graph.Reachable block)
    (around : Around flow codes frames)
    (inside : Inside flow.shape (HasLoop flow frames)
      (fun merge => HasPart flow frames merge ∨ merge ∈ mergesOf flow block) block) :
    Enters oracle flow codes block ⟨.run skeleton, frames, next, history⟩ := by
  obtain ⟨inline, guarded, inlines, made, merged⟩ := body
  obtain ⟨inner, around, wider, parts, reaches⟩ := run_withMerges oracle next history wellBuilt
    inlines merged (lastMerges_all wellBuilt) around inside
  refine ⟨_, reaches, ⟨reachable, guarded, inner, next, history, ⟨inline, inlines, made⟩, around,
    ⟨fun header dominates => (inside.loops header dominates).imp fun _ found => wider found, ?_⟩,
    rfl⟩, rfl⟩
  intro merge above isMerge immediate dominates behind
  rcases inside.merges isMerge immediate dominates behind with outside | known
  · exact wider outside
  · exact parts merge known

/-- A loop begins with its block, at first and whenever it is continued. -/
theorem enters_loop (wellBuilt : flow.WellBuilt) {skeleton : Skeleton}
    (body : IsBody flow codes block skeleton) (reachable : flow.shape.graph.Reachable block)
    (header : flow.shape.isLoopHeader block = true) (around : Around flow codes frames)
    (provides : Provides flow.shape (HasLoop flow frames) (HasPart flow frames) block) :
    Enters oracle flow codes block
      ⟨.run skeleton, .loop (flow.start block) skeleton :: frames, next, history⟩ := by
  refine enters_body wellBuilt body reachable (.loop reachable header body provides around) ?_
  refine provides.inside (fun ⟨other, found⟩ => ⟨other, .tail _ found⟩)
    (fun _ => ⟨skeleton, List.mem_cons_self⟩) (fun found => .inl (.tail _ found)) ?_
  exact fun isMerge immediate => .inr ((mem_mergesOf wellBuilt).mpr ⟨immediate, isMerge⟩)

theorem enters_tree (wellBuilt : flow.WellBuilt) {skeleton : Skeleton}
    (tree : IsTree flow codes block skeleton) (reachable : flow.shape.graph.Reachable block)
    (around : Around flow codes frames)
    (provides : Provides flow.shape (HasLoop flow frames) (HasPart flow frames) block) :
    Enters oracle flow codes block ⟨.run skeleton, frames, next, history⟩ := by
  obtain ⟨inner, body, rfl⟩ := tree.exists_body
  split
  next header =>
    have begins : Moves oracle ⟨.run (.loop (flow.start block) inner), frames, next, history⟩
        ⟨.run inner, .loop (flow.start block) inner :: frames, next, history⟩ := ⟨trivial, rfl⟩
    exact (enters_loop wellBuilt body reachable header around provides).head (.single begins) rfl
  next plain =>
    refine enters_body wellBuilt body reachable around ?_
    refine provides.inside id (fun header => absurd header plain) .inl ?_
    exact fun isMerge immediate => .inr ((mem_mergesOf wellBuilt).mpr ⟨immediate, isMerge⟩)

/-! ## Jumps -/

/-- Going on with a loop among the frames enters its block. -/
theorem continues_enters (wellBuilt : flow.WellBuilt)
    (reachable : flow.shape.graph.Reachable block) (around : Around flow codes frames)
    (found : HasLoop flow frames block) :
    Enters oracle flow codes block
      ⟨.complete (.continues (some (flow.start block))), frames, next, history⟩ := by
  obtain ⟨body, found⟩ := found
  have bound := reachable.lt_size.trans_eq wellBuilt.size
  induction around with
  | nothing => cases found
  | @loop header other frames headed isHeader isBody provides around ih =>
    by_cases same : flow.start header = flow.start block
    · cases wellBuilt.start_inj (headed.lt_size.trans_eq wellBuilt.size) bound same
      have again : Moves oracle
          ⟨.complete (.continues (some (flow.start block))),
            .loop (flow.start block) other :: frames, next, history⟩
          ⟨.run other, .loop (flow.start block) other :: frames, next, history⟩ := by
        refine ⟨trivial, ?_⟩
        simp only [State.step, State.stepComplete, if_true]
      exact (enters_loop wellBuilt isBody reachable isHeader around provides).head
        (.single again) rfl
    · rcases List.mem_cons.mp found with this | later
      · injection this with label _
        exact absurd label.symm same
      · refine (ih later).head (.single ⟨trivial, ?_⟩) rfl
        simp only [State.step, State.stepComplete, if_neg same]
  | part _ _ _ _ ih =>
    refine (ih ?_).head (.head ⟨trivial, rfl⟩ (.single ⟨trivial, rfl⟩)) rfl
    simpa using found
  | cases _ ih =>
    refine (ih ?_).head (.single ⟨trivial, rfl⟩) rfl
    simpa using found
  | caught _ ih =>
    refine (ih ?_).head (.head ⟨trivial, rfl⟩ (.single ⟨trivial, rfl⟩)) rfl
    simpa using found

/-- Leaving a labelled part among the frames enters the merge behind it. -/
theorem breaks_enters (wellBuilt : flow.WellBuilt)
    (reachable : flow.shape.graph.Reachable block) (around : Around flow codes frames)
    (found : HasPart flow frames block) :
    Enters oracle flow codes block
      ⟨.complete (.breaks (flow.start block)), frames, next, history⟩ := by
  have bound := reachable.lt_size.trans_eq wellBuilt.size
  rw [HasPart] at found
  induction around with
  | nothing => cases found
  | loop _ _ _ _ _ ih =>
    refine (ih ?_).head (.single ⟨trivial, rfl⟩) rfl
    simpa using found
  | @part merge after frames merged isTree provides around ih =>
    by_cases same : flow.start merge = flow.start block
    · cases wellBuilt.start_inj (merged.lt_size.trans_eq wellBuilt.size) bound same
      have leaves : Moves oracle
          ⟨.complete (.breaks (flow.start block)),
            .labelled (flow.start block) :: .next after :: frames, next, history⟩
          ⟨.complete .normal, .next after :: frames, next, history⟩ := by
        refine ⟨trivial, ?_⟩
        simp only [State.step, State.stepComplete, if_true]
      have goes : Moves oracle ⟨.complete .normal, .next after :: frames, next, history⟩
          ⟨.run after, frames, next, history⟩ := ⟨trivial, rfl⟩
      exact (enters_tree wellBuilt isTree reachable around provides).head
        (.head leaves (.single goes)) rfl
    · have later : Frame.labelled (flow.start block) ∈ frames := by
        simpa [Ne.symm same] using found
      have passes : Moves oracle
          ⟨.complete (.breaks (flow.start block)),
            .labelled (flow.start merge) :: .next after :: frames, next, history⟩
          ⟨.complete (.breaks (flow.start block)), .next after :: frames, next, history⟩ := by
        refine ⟨trivial, ?_⟩
        simp only [State.step, State.stepComplete, if_neg same]
      exact (ih later).head (.head passes (.single ⟨trivial, rfl⟩)) rfl
  | cases _ ih =>
    refine (ih ?_).head (.single ⟨trivial, rfl⟩) rfl
    simpa using found
  | caught _ ih =>
    refine (ih ?_).head (.head ⟨trivial, rfl⟩ (.single ⟨trivial, rfl⟩)) rfl
    simpa using found

/-- Every jump from a block enters its target. -/
theorem jump_enters (oracle : Oracle Thrown) (next : ℕ) (history : History Thrown)
    (wellBuilt : flow.WellBuilt) (reducible : flow.shape.reducible = true)
    (reachable : flow.shape.graph.Reachable block)
    (edge : flow.shape.graph.Edge block target) {skeleton : Skeleton}
    (inlines : Inlines flow codes inline)
    (made : jumpFrom flow inline block target = .ok skeleton) (around : Around flow codes frames)
    (inside : Inside flow.shape (HasLoop flow frames) (HasPart flow frames) block) :
    Enters oracle flow codes target ⟨.run skeleton, frames, next, history⟩ := by
  have reached : flow.shape.graph.Reachable target := .step reachable edge trivial
  rcases jumpFrom_eq_ok made with ⟨back, rfl⟩ | ⟨ahead, isMerge, rfl⟩ | ⟨ahead, single, made⟩
  · have found := (inside.loop wellBuilt.shape reducible edge back).2
    exact (continues_enters wellBuilt reached around found).head (.single ⟨trivial, rfl⟩) rfl
  · have forward := forward_of_edge wellBuilt reachable edge ahead
    have found := inside.merge wellBuilt.shape forward isMerge
    exact (breaks_enters wellBuilt reached around found).head (.single ⟨trivial, rfl⟩) rfl
  · have forward := forward_of_edge wellBuilt reachable edge ahead
    exact enters_tree wellBuilt (inlines made) reached around
      (inside.child wellBuilt.shape reducible forward single)

/-! ## Visiting blocks -/

/-- A machine that enters a block is where the walk is. -/
theorem Enters.related {state : State Thrown} (enters : Enters oracle flow codes block state)
    (walk : Walk Thrown) (position : walk.position = .inside block)
    (same : state.history = walk.history) :
    ∃ after, Reaches oracle state after ∧ Related oracle (AtBlock flow codes) walk after := by
  obtain ⟨after, reaches, atBlock, kept⟩ := enters
  refine ⟨after, reaches, kept.trans same, ?_, ?_⟩
  · obtain ⟨_, _, _, _, _, _, _, _, rfl⟩ := atBlock
    rw [position]
    rfl
  · rw [position]
    exact atBlock

/-- A block that completes goes on as the walk does. -/
theorem exit_nested (oracle : Oracle Thrown) (next : ℕ) (history : History Thrown)
    (wellBuilt : flow.WellBuilt) (translated : Translated flow codes)
    (reducible : flow.shape.reducible = true) (reachable : flow.shape.graph.Reachable block)
    {code : BlockCode} {exit : Skeleton} (inlines : Inlines flow codes inline)
    (coded : codes.getD block none = some code)
    (made : exitSkeleton flow (jumpFrom flow inline block) code.exit = .ok exit)
    (stays : code.exit ≠ .throw) (around : Around flow codes frames)
    (inside : Inside flow.shape (HasLoop flow frames) (HasPart flow frames) block) :
    ∃ after, Reaches oracle ⟨.run exit, frames, next, history⟩ after ∧
      Related oracle (AtBlock flow codes) ⟨afterExit flow oracle history code.exit, history⟩
        after := by
  rcases run_exitSkeleton oracle history made stays frames next with
    ⟨target, body, inner, goes, jump, cases, reaches⟩ | ⟨value, goes, reaches⟩
  · obtain ⟨offset, member, found⟩ := exists_target_of_afterExit goes
    obtain ⟨other, listed, same⟩ := translated.exists_next wellBuilt coded member
    cases found.symm.trans same
    have around : Around flow codes (inner ++ frames) := by
      clear reaches
      induction inner with
      | nil => exact around
      | cons frame rest ih =>
        obtain ⟨⟨behind, rfl⟩, others⟩ := List.forall_mem_cons.mp cases
        exact .cases (ih others)
    have wider : Inside flow.shape (HasLoop flow (inner ++ frames)) (HasPart flow (inner ++ frames))
        block :=
      ⟨fun header dominates =>
        (inside.loops header dominates).imp fun _ found => List.mem_append_right _ found,
        fun isMerge immediate dominates behind =>
          List.mem_append_right _ (inside.merges isMerge immediate dominates behind)⟩
    have enters := jump_enters oracle next history wellBuilt
      reducible reachable (wellBuilt.edge_of_next listed) inlines jump around wider
    exact (enters.head reaches rfl).related _ goes rfl
  · refine ⟨⟨.complete (.leaves value), [], next, history⟩, ?_, ?_⟩
    · have leaves := reaches_pass oracle (.leaves value) frames [] next history
        fun frame _ => passes_leaves value frame
      rw [List.append_nil] at leaves
      exact reaches.trans leaves
    · rw [goes]
      exact ⟨rfl, rfl, trivial, rfl⟩

/-- An exception in a block goes to its handlers, or leaves the method. -/
theorem failure_nested (oracle : Oracle Thrown) (exception : Thrown) (exit : Skeleton) (next : ℕ)
    (history : History Thrown) (wellBuilt : flow.WellBuilt)
    (reducible : flow.shape.reducible = true) (reachable : flow.shape.graph.Reachable block)
    {recovery : Recovery} (inlines : Inlines flow codes inline)
    (made : recoveryOf (jumpFrom flow inline block)
      (HandlerGroup.ofHandlers (flow.covering block)) = .ok recovery)
    (around : Around flow codes frames)
    (inside : Inside flow.shape (HasLoop flow frames) (HasPart flow frames) block) :
    ∃ after, Reaches oracle ⟨.recover exception recovery, .next exit :: frames, next, history⟩
        after ∧
      Related oracle (AtBlock flow codes) (afterFailure flow oracle block exception history)
        after := by
  have recovers := run_recoveryOf oracle exception made
    (.next exit :: frames) next history
  rw [afterFailure]
  split
  next handler found =>
    obtain ⟨group, caught, same⟩ := HandlerGroup.find?_ofHandlers_some found
    rw [caught] at recovers
    obtain ⟨body, jump, reaches⟩ := recovers
    rw [same] at jump
    have edge := wellBuilt.edge_of_covering (List.mem_of_find?_eq_some found)
    have wider : Inside flow.shape (HasLoop flow (.caught :: .next exit :: frames))
        (HasPart flow (.caught :: .next exit :: frames)) block :=
      ⟨fun header dominates =>
        (inside.loops header dominates).imp fun _ found => .tail _ (.tail _ found),
        fun isMerge immediate dominates behind =>
          .tail _ (.tail _ (inside.merges isMerge immediate dominates behind))⟩
    have enters := jump_enters oracle next (.bind exception :: history) wellBuilt reducible
      reachable edge inlines jump around.caught wider
    obtain ⟨after, further, related⟩ :=
      enters.related ⟨.inside handler.target, .bind exception :: history⟩ rfl rfl
    exact ⟨after, reaches.trans further, related⟩
  next missing =>
    rw [HandlerGroup.find?_ofHandlers_none missing] at recovers
    refine ⟨⟨.complete (.throws exception), [], next, history⟩, ?_, rfl, rfl, trivial, rfl⟩
    have leaves := reaches_pass oracle (.throws exception) (.next exit :: frames) [] next history
      (List.forall_mem_cons.mpr ⟨passes_throws exception (by simp),
        fun frame member => passes_throws exception (around.uncaught frame member)⟩)
    rw [List.append_nil] at leaves
    exact recovers.trans leaves

/-- The machine gets from one block of nested code to the next as a walk does. -/
theorem visit_nested (wellBuilt : flow.WellBuilt) (translated : Translated flow codes)
    (reducible : flow.shape.reducible = true) {state : State Thrown}
    (atBlock : AtBlock flow codes block state) :
    ∃ after, Advances oracle state after ∧ Related oracle (AtBlock flow codes)
      (visitBlock flow codes oracle block state.history) after := by
  obtain ⟨reachable, guarded, frames, next, history, ⟨inline, inlines, made⟩, around, inside,
    rfl⟩ := atBlock
  obtain ⟨code, recovery, exit, coded, handled, left, rfl⟩ := guardedBlock_eq_ok.mp made
  rw [visitBlock, coded]
  dsimp only
  cases outcome : oracle.outcome code.statements (.visit block :: history) with
  | none =>
    obtain ⟨after, reaches, related⟩ := exit_nested oracle next (.visit block :: history)
      wellBuilt translated reducible reachable inlines coded left
      (translated.exit_ne_throw coded outcome) around inside
    exact ⟨after, (block_completes outcome).trans_left reaches, related⟩
  | some exception =>
    obtain ⟨after, reaches, related⟩ := failure_nested oracle exception exit next
      (.visit block :: history) wellBuilt reducible reachable inlines handled around inside
    exact ⟨after, (block_fails outcome).trans_left reaches, related⟩

/-- Nested code follows the flow, if that is reducible. -/
theorem nested_follows (wellBuilt : flow.WellBuilt) (translated : Translated flow codes)
    (reducible : flow.shape.reducible = true) {skeleton : Skeleton}
    (made : structuredCode flow codes = .ok skeleton) :
    Follows oracle (.structured skeleton) flow codes := by
  refine follows_of_related (AtBlock flow codes) ?_ fun block state atBlock =>
    visit_nested wellBuilt translated reducible atBlock
  exact (enters_tree wellBuilt ⟨flow.size, made⟩ wellBuilt.reachable_entry .nothing
    provides_entry).related _ rfl rfl

end Bytescript.Translation
