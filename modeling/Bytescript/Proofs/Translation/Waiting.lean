import Bytescript.Proofs.Translation.Block
import Bytescript.Translation.Structure
import Mathlib.Logic.Relation

/-!
# Blocks that wait

A block waits from the moment at which the stack that it is entered with is known until it is
translated.  A step translates any of the waiting blocks, so the order in which blocks are taken is
left open; the translation of a method is one way to take steps, with the latest block first.

What a step keeps: every block that is entered waits or has its code, and whatever the code of a
block leads to is entered with the stack that the block leaves.  Every step takes one from a budget
that is the number of blocks at first, so there is an end, and then every block that can be reached
has its code.
-/

set_option autoImplicit false

namespace Bytescript.Translation

open Bytescript.Flow Script

/-- What a block that leaves a stack makes another block be entered with. -/
inductive Passes (flow : ControlFlow) (block : Nat) (left : Stack) : Nat → Stack → Prop where
  | next {target : Nat} (listed : target ∈ flow.next block) : Passes flow block left target left
  | handler {handler : Handler} (listed : handler ∈ flow.covering block) :
    Passes flow block left handler.target handlerStack

theorem Passes.edge {flow : ControlFlow} {block target : Nat} {left stack : Stack}
    (wellBuilt : flow.WellBuilt) (passes : Passes flow block left target stack) :
    flow.shape.graph.Edge block target := by
  cases passes with
  | next listed => exact wellBuilt.edge_of_next listed
  | handler listed => exact wellBuilt.edge_of_covering listed

/-- A block makes every block be entered that it has an edge to. -/
theorem exists_passes {flow : ControlFlow} {block target : Nat} (left : Stack)
    (wellBuilt : flow.WellBuilt) (edge : flow.shape.graph.Edge block target) :
    ∃ stack, Passes flow block left target stack := by
  have member := edge.1
  rw [wellBuilt.edges, edgesOf, List.mem_append, List.mem_eraseDups] at member
  rcases member with next | handler
  · exact ⟨left, .next next⟩
  · obtain ⟨handler, listed, rfl⟩ := List.mem_map.mp handler
    exact ⟨handlerStack, .handler listed⟩

namespace Progress

variable {flow : ControlFlow} {scope : Scope} {before after : Progress}

/-! ## What is known -/

/-- A block is known to be entered with a stack. -/
def EnteredWith (progress : Progress) (block : Nat) (stack : Stack) : Prop :=
  progress.entries.getD block none = some stack

/-- The stack that a block is entered with is known. -/
def Entered (progress : Progress) (block : Nat) : Prop := ∃ stack, progress.EnteredWith block stack

/-- The code of a block is known. -/
def HasCode (progress : Progress) (block : Nat) (code : BlockCode) : Prop :=
  progress.codes.getD block none = some code

/-- How many blocks wait, or may have to wait later. -/
def budget (progress : Progress) : Nat :=
  progress.entries.count none + progress.pending.length

theorem EnteredWith.unique {progress : Progress} {block : Nat} {one other : Stack}
    (here : progress.EnteredWith block one) (there : progress.EnteredWith block other) :
    one = other :=
  Option.some.inj (here.symm.trans there)

theorem EnteredWith.lt {progress : Progress} {block : Nat} {stack : Stack}
    (entered : progress.EnteredWith block stack) : block < progress.entries.size := by
  by_contra beyond
  rw [EnteredWith, Array.getD_eq_getD_getElem?, Array.getElem?_eq_none (Nat.not_lt.mp beyond)]
    at entered
  cases entered

theorem getD_setIfInBounds {α : Type} {table : Array α} {index other : Nat} {value default : α}
    (inside : index < table.size) :
    (table.setIfInBounds index value).getD other default =
      if other = index then value else table.getD other default := by
  rw [Array.getD_eq_getD_getElem?, Array.getD_eq_getD_getElem?, Array.getElem?_setIfInBounds]
  by_cases same : other = index
  · subst same
    simp [inside]
  · simp [same, Ne.symm same]

theorem getD_replicate_none {α : Type} (size index : Nat) :
    (Array.replicate size (none : Option α)).getD index none = none := by
  rw [Array.getD_eq_getD_getElem?, Array.getElem?_replicate]
  split <;> rfl

/-! ## Entering blocks -/

/-- More blocks may be known to be entered, with stacks that are passed to them, and those wait. -/
structure Grows (passed : Nat → Stack → Prop) (before after : Progress) : Prop where
  codes : after.codes = before.codes
  size : after.entries.size = before.entries.size
  budget : after.budget = before.budget
  kept : ∀ {block : Nat} {stack : Stack}, before.EnteredWith block stack →
    after.EnteredWith block stack
  new : ∀ {block : Nat} {stack : Stack}, after.EnteredWith block stack →
    before.EnteredWith block stack ∨ (passed block stack ∧ block ∈ after.pending)
  pending : ∀ {block : Nat}, block ∈ before.pending → block ∈ after.pending
  known : ∀ {block : Nat}, block ∈ after.pending → block ∈ before.pending ∨ after.Entered block

theorem Grows.refl (passed : Nat → Stack → Prop) (progress : Progress) :
    Grows passed progress progress :=
  ⟨rfl, rfl, rfl, id, .inl, id, .inl⟩

theorem Grows.trans {passed : Nat → Stack → Prop} {middle : Progress}
    (one : Grows passed before middle) (two : Grows passed middle after) :
    Grows passed before after where
  codes := two.codes.trans one.codes
  size := two.size.trans one.size
  budget := two.budget.trans one.budget
  kept here := two.kept (one.kept here)
  new here := by
    rcases two.new here with early | later
    · exact (one.new early).imp_right fun ⟨given, waits⟩ => ⟨given, two.pending waits⟩
    · exact .inr later
  pending here := two.pending (one.pending here)
  known here := by
    rcases two.known here with early | known
    · exact (one.known early).imp_right fun ⟨stack, known⟩ => ⟨stack, two.kept known⟩
    · exact .inr known

theorem enter_grows (passed : Nat → Stack → Prop) {stack : Stack} {block : Nat}
    (inside : block < before.entries.size) (given : passed block stack)
    (entered : enter flow stack before block = .ok after) :
    Grows passed before after ∧ after.EnteredWith block stack := by
  rw [enter] at entered
  split at entered
  next free =>
    cases entered
    have table (other : Nat) : (before.entries.setIfInBounds block (some stack)).getD other none =
        if other = block then some stack else before.entries.getD other none :=
      getD_setIfInBounds inside
    refine ⟨⟨rfl, Array.size_setIfInBounds, ?_, ?_, ?_, .tail _, ?_⟩, ?_⟩
    · rw [Array.getD_eq_getD_getElem?, Array.getElem?_eq_getElem inside] at free
      have present : 0 < before.entries.count none :=
        Array.count_pos_iff.mpr (free ▸ Array.getElem_mem inside)
      simp only [budget, Array.setIfInBounds_def, dif_pos inside, List.length_cons]
      rw [Array.count_set inside, show before.entries[block] = none from free]
      simp only [BEq.rfl, if_true, show (some stack == none) = false from rfl]
      simp only [Bool.false_eq_true, if_false]
      omega
    · intro other known here
      rw [EnteredWith, table, if_neg]
      · exact here
      · rintro rfl
        cases free.symm.trans here
    · intro other known here
      rw [EnteredWith, table] at here
      split at here
      next same =>
        cases here
        exact .inr ⟨same ▸ given, same ▸ List.mem_cons_self⟩
      · exact .inl here
    · intro other waits
      rcases List.mem_cons.mp waits with same | early
      · exact .inr ⟨stack, by rw [EnteredWith, table, if_pos same]⟩
      · exact .inl early
    · rw [EnteredWith, table, if_pos rfl]
  next known here =>
    split at entered
    next same =>
      cases entered
      exact ⟨.refl passed before, same ▸ here⟩
    · cases entered

theorem foldlM_enter_grows (passed : Nat → Stack → Prop) {stack : Stack} {targets : List Nat}
    (inside : ∀ target ∈ targets, target < before.entries.size)
    (given : ∀ target ∈ targets, passed target stack)
    (entered : targets.foldlM (enter flow stack) before = .ok after) :
    Grows passed before after ∧ ∀ target ∈ targets, after.EnteredWith target stack := by
  induction targets generalizing before with
  | nil =>
    cases entered
    exact ⟨.refl passed _, by simp⟩
  | cons target rest ih =>
    rw [List.foldlM_cons, bind_eq_ok] at entered
    obtain ⟨middle, here, entered⟩ := entered
    obtain ⟨insideFirst, insideRest⟩ := List.forall_mem_cons.mp inside
    obtain ⟨givenFirst, givenRest⟩ := List.forall_mem_cons.mp given
    obtain ⟨grows, known⟩ := enter_grows passed insideFirst givenFirst here
    obtain ⟨further, others⟩ := ih (grows.size ▸ insideRest) givenRest entered
    exact ⟨grows.trans further, List.forall_mem_cons.mpr ⟨further.kept known, others⟩⟩

/-- What a visit does: the block is translated from the stack that it is entered with, and the
blocks that it leads to are entered. -/
theorem visit_cases (wellBuilt : flow.WellBuilt) {block : Nat} {stack : Stack}
    (visited : visit scope flow block before = .ok after)
    (size : before.entries.size = flow.size) (known : before.EnteredWith block stack) :
    ∃ content code left middle, flow.blocks[block]? = some content ∧
      translateBlock scope content stack = .ok (code, left) ∧
      Grows (Passes flow block left) before middle ∧
      (∀ {target : Nat} {entry : Stack}, Passes flow block left target entry →
        middle.EnteredWith target entry) ∧
      after = middle.finish block code := by
  have inside : block < flow.blocks.size := known.lt.trans_eq size
  rw [visit, Array.getElem?_eq_getElem inside, show before.entries.getD block none = _ from known]
    at visited
  obtain ⟨⟨code, left⟩, translated, visited⟩ := bind_eq_ok.mp visited
  obtain ⟨between, successors, visited⟩ := bind_eq_ok.mp visited
  obtain ⟨middle, handlers, visited⟩ := bind_eq_ok.mp visited
  cases visited
  obtain ⟨grows, nexts⟩ := foldlM_enter_grows (Passes flow block left)
    (fun _ listed => size ▸ wellBuilt.next_lt listed) (fun _ listed => .next listed) successors
  obtain ⟨further, others⟩ := foldlM_enter_grows (Passes flow block left)
    (List.forall_mem_map.mpr fun _ listed => by
      rw [grows.size, size]
      exact wellBuilt.covering_lt listed)
    (List.forall_mem_map.mpr fun _ listed => .handler listed) handlers
  refine ⟨_, code, left, middle, Array.getElem?_eq_getElem inside, translated,
    grows.trans further, fun passes => ?_, rfl⟩
  cases passes with
  | next listed => exact further.kept (nexts _ listed)
  | handler listed => exact others _ (List.mem_map_of_mem listed)

/-! ## Steps -/

/-- One step translates a waiting block, wherever it stands among those that wait. -/
inductive Step (scope : Scope) (flow : ControlFlow) : Progress → Progress → Prop where
  | take {before after : Progress} {front rest : List Nat} {block : Nat}
    (waits : before.pending = front ++ block :: rest)
    (visited : visit scope flow block { before with pending := front ++ rest } = .ok after) :
    Step scope flow before after

/-- A step that translates the latest block to wait. -/
theorem Step.latest {block : Nat} {rest : List Nat} (waits : before.pending = block :: rest)
    (visited : visit scope flow block { before with pending := rest } = .ok after) :
    Step scope flow before after :=
  have first : before.pending = [] ++ block :: rest := waits
  .take first visited

/-- Any number of steps. -/
abbrev Steps (scope : Scope) (flow : ControlFlow) : Progress → Progress → Prop :=
  Relation.ReflTransGen (Step scope flow)

/-- The code of a block comes from the stack that the block is entered with, and the blocks that it
leads to are entered with the stacks that it passes to them. -/
def Settled (scope : Scope) (flow : ControlFlow) (progress : Progress) (block : Nat)
    (code : BlockCode) : Prop :=
  ∃ content stack left, flow.blocks[block]? = some content ∧ progress.EnteredWith block stack ∧
    translateBlock scope content stack = .ok (code, left) ∧
    ∀ {target : Nat} {entry : Stack}, Passes flow block left target entry →
      progress.EnteredWith target entry

/-- What holds while blocks wait: every block that is entered waits or has its code, and all code
is settled. -/
structure Sound (scope : Scope) (flow : ControlFlow) (progress : Progress) : Prop where
  entries : progress.entries.size = flow.size
  codes : progress.codes.size = flow.size
  entry : progress.EnteredWith ControlFlow.entry []
  pending : ∀ {block : Nat}, block ∈ progress.pending → progress.Entered block
  waits : ∀ {block : Nat}, progress.Entered block →
    block ∈ progress.pending ∨ ∃ code, progress.HasCode block code
  reachable : ∀ {block : Nat}, progress.Entered block → flow.shape.graph.Reachable block
  settled : ∀ {block : Nat} {code : BlockCode}, progress.HasCode block code →
    progress.Settled scope flow block code

theorem Settled.mono {block : Nat} {code : BlockCode}
    (kept : ∀ {block : Nat} {stack : Stack}, before.EnteredWith block stack →
      after.EnteredWith block stack) (settled : before.Settled scope flow block code) :
    after.Settled scope flow block code := by
  obtain ⟨content, stack, left, here, entered, translated, passes⟩ := settled
  exact ⟨content, stack, left, here, kept entered, translated, fun passed => kept (passes passed)⟩

/-- Recording the code of a block that was waiting keeps everything sound. -/
theorem Sound.finish {passed : Nat → Stack → Prop} {block : Nat} {code : BlockCode}
    {front rest : List Nat} (sound : before.Sound scope flow)
    (waits : before.pending = front ++ block :: rest)
    (grows : Grows passed { before with pending := front ++ rest } after)
    (reached : ∀ {target : Nat} {stack : Stack}, passed target stack →
      flow.shape.graph.Reachable target)
    (settled : after.Settled scope flow block code) :
    (after.finish block code).Sound scope flow := by
  have same : after.codes = before.codes := grows.codes
  have entered : before.Entered block := sound.pending (by simp [waits])
  have table (other : Nat) : (after.finish block code).codes.getD other none =
      if other = block then some code else before.codes.getD other none := by
    obtain ⟨stack, known⟩ := entered
    exact same ▸ getD_setIfInBounds (by rw [same, sound.codes, ← sound.entries]; exact known.lt)
  have pending (other : Nat) : other ∈ before.pending ↔ other = block ∨ other ∈ front ++ rest := by
    rw [waits, List.mem_append, List.mem_cons, List.mem_append, or_left_comm]
  refine ⟨grows.size.trans sound.entries, ?_, grows.kept sound.entry, ?_, ?_, ?_, ?_⟩
  · exact Array.size_setIfInBounds.trans (same ▸ sound.codes)
  · intro other waiting
    rcases grows.known waiting with early | known
    · obtain ⟨stack, known⟩ := sound.pending ((pending other).mpr (.inr early))
      exact ⟨stack, grows.kept known⟩
    · exact known
  · rintro other ⟨stack, known⟩
    by_cases this : other = block
    · exact .inr ⟨code, by rw [HasCode, table, if_pos this]⟩
    · rcases grows.new known with early | later
      · rcases sound.waits ⟨stack, early⟩ with waiting | ⟨found, coded⟩
        · exact .inl (grows.pending (((pending other).mp waiting).resolve_left this))
        · exact .inr ⟨found, by rw [HasCode, table, if_neg this]; exact coded⟩
      · exact .inl later.2
  · rintro other ⟨stack, known⟩
    rcases grows.new known with early | later
    · exact sound.reachable ⟨stack, early⟩
    · exact reached later.1
  · intro other found coded
    rw [HasCode, table] at coded
    split at coded
    next this =>
      cases coded
      exact this ▸ settled
    next => exact (sound.settled coded).mono grows.kept

/-- A step keeps everything sound, and takes one from the budget. -/
theorem Step.sound (wellBuilt : flow.WellBuilt) (sound : before.Sound scope flow)
    (step : Step scope flow before after) :
    after.Sound scope flow ∧ after.budget + 1 = before.budget := by
  obtain @⟨front, rest, block, waits, visited⟩ := step
  obtain ⟨stack, known⟩ : before.Entered block := sound.pending (by simp [waits])
  obtain ⟨content, code, left, middle, here, translated, grows, passes, rfl⟩ :=
    visit_cases wellBuilt visited sound.entries known
  refine ⟨sound.finish waits grows (fun passed => ?_)
    ⟨content, stack, left, here, grows.kept known, translated, passes⟩, ?_⟩
  · exact .step (sound.reachable ⟨stack, known⟩) (passed.edge wellBuilt) trivial
  · have budget := grows.budget
    simp only [Progress.budget, waits, finish, List.length_append, List.length_cons] at budget ⊢
    omega

theorem Steps.sound (wellBuilt : flow.WellBuilt) (sound : before.Sound scope flow)
    (steps : Steps scope flow before after) : after.Sound scope flow := by
  induction steps with
  | refl => exact sound
  | tail _ step ih => exact (step.sound wellBuilt ih).1

/-- At first, only the entry is known to be entered. -/
theorem enteredWith_start (wellBuilt : flow.WellBuilt) {block : Nat} {stack : Stack} :
    (start flow).EnteredWith block stack ↔ block = ControlFlow.entry ∧ stack = [] := by
  have inside : ControlFlow.entry < (Array.replicate flow.size (none : Option Stack)).size := by
    rw [Array.size_replicate]
    exact wellBuilt.nonempty
  rw [EnteredWith, start, getD_setIfInBounds inside, getD_replicate_none]
  split <;> simp_all [eq_comm]

theorem budget_start (wellBuilt : flow.WellBuilt) : (start flow).budget = flow.size := by
  have positive := wellBuilt.nonempty
  have inside : ControlFlow.entry < (Array.replicate flow.size (none : Option Stack)).size := by
    rwa [Array.size_replicate]
  simp only [budget, start, Array.setIfInBounds_def, dif_pos inside, List.length_singleton]
  rw [Array.count_set inside, Array.count_replicate_self, Array.getElem_replicate]
  simp only [BEq.rfl, if_true, show (some ([] : Stack) == none) = false from rfl]
  simp only [Bool.false_eq_true, if_false]
  omega

theorem start_sound (wellBuilt : flow.WellBuilt) : (start flow).Sound scope flow := by
  have entry {block : Nat} : (start flow).Entered block ↔ block = ControlFlow.entry := by
    simp [Entered, enteredWith_start wellBuilt]
  refine ⟨by simp [start], by simp [start], (enteredWith_start wellBuilt).mpr ⟨rfl, rfl⟩,
    ?_, ?_, ?_, ?_⟩
  · exact fun waits => entry.mpr (List.mem_singleton.mp waits)
  · exact fun entered => .inl (List.mem_singleton.mpr (entry.mp entered))
  · exact fun entered => entry.mp entered ▸ wellBuilt.reachable_entry
  · intro block code coded
    rw [HasCode, start, getD_replicate_none] at coded
    cases coded

/-- The translation of a method takes steps until no block waits. -/
theorem run_steps (wellBuilt : flow.WellBuilt) {fuel : Nat} (sound : before.Sound scope flow)
    (enough : before.budget ≤ fuel) (finished : run scope flow fuel before = .ok after) :
    Steps scope flow before after ∧ after.pending = [] := by
  induction fuel generalizing before with
  | zero =>
    cases finished
    refine ⟨.refl, List.length_eq_zero_iff.mp ?_⟩
    rw [budget] at enough
    omega
  | succ fuel ih =>
    rw [run] at finished
    split at finished
    next none =>
      cases finished
      exact ⟨.refl, none⟩
    next block rest next =>
      obtain ⟨middle, visited, finished⟩ := bind_eq_ok.mp finished
      have step : Step scope flow before middle := .latest next visited
      obtain ⟨sound', less⟩ := step.sound wellBuilt sound
      obtain ⟨steps, done⟩ := ih sound' (by omega) finished
      exact ⟨.head step steps, done⟩

/-- In the end, exactly the blocks that can be reached have code. -/
theorem Sound.hasCode_iff (wellBuilt : flow.WellBuilt) {progress : Progress}
    (sound : progress.Sound scope flow) (done : progress.pending = []) {block : Nat} :
    (∃ code, progress.HasCode block code) ↔ flow.shape.graph.Reachable block := by
  have coded {block : Nat} (entered : progress.Entered block) :
      ∃ code, progress.HasCode block code :=
    (sound.waits entered).resolve_left (by simp [done])
  constructor
  · rintro ⟨code, here⟩
    obtain ⟨_, stack, _, _, entered, _⟩ := sound.settled here
    exact sound.reachable ⟨stack, entered⟩
  · intro reachable
    induction reachable with
    | entry _ _ => exact coded ⟨[], sound.entry⟩
    | step _ edge _ ih =>
      obtain ⟨code, here⟩ := ih
      obtain ⟨_, _, left, _, _, _, passes⟩ := sound.settled here
      obtain ⟨stack, passed⟩ := exists_passes left wellBuilt edge
      exact coded ⟨stack, passes passed⟩

end Progress

/-! ## All blocks -/

/-- The translation of all blocks takes steps from the start until no block waits. -/
theorem steps_of_translateBlocks {scope : Scope} {flow : ControlFlow} {codes : Codes}
    (wellBuilt : flow.WellBuilt) (translated : translateBlocks scope flow = .ok codes) :
    ∃ progress : Progress, Progress.Steps scope flow (.start flow) progress ∧
      progress.pending = [] ∧ progress.codes = codes := by
  obtain ⟨progress, finished, same⟩ := map_eq_ok.mp translated
  obtain ⟨steps, done⟩ := Progress.run_steps wellBuilt (Progress.start_sound wellBuilt)
    (Progress.budget_start wellBuilt).le finished
  exact ⟨progress, steps, done, same⟩

/-- Every block that can be reached has code, and that code suits its block. -/
structure Translated (flow : ControlFlow) (codes : Codes) : Prop where
  coded : ∀ {block : Nat}, flow.shape.graph.Reachable block →
    ∃ code, codes.getD block none = some code
  suits : ∀ {block : Nat} {code : BlockCode}, codes.getD block none = some code →
    ∃ content, flow.blocks[block]? = some content ∧ code.Suits content

theorem codeOf_eq_ok {flow : ControlFlow} {codes : Codes} {block : Nat} {code : BlockCode} :
    codeOf flow codes block = .ok code ↔ codes.getD block none = some code := by
  rw [codeOf]
  split
  next other known => simp [known]
  next missing => simp [missing, malformed, failCompile]

theorem translateBlocks_translated {scope : Scope} {flow : ControlFlow} {codes : Codes}
    (wellBuilt : flow.WellBuilt) (translated : translateBlocks scope flow = .ok codes) :
    Translated flow codes := by
  obtain ⟨progress, steps, done, rfl⟩ := steps_of_translateBlocks wellBuilt translated
  have sound := steps.sound wellBuilt (Progress.start_sound wellBuilt)
  refine ⟨(sound.hasCode_iff wellBuilt done).mpr, fun coded => ?_⟩
  obtain ⟨content, _, _, here, _, translated, _⟩ := sound.settled coded
  exact ⟨content, here, translateBlock_suits (wellBuilt.occupied here) translated⟩

namespace Translated

variable {flow : ControlFlow} {codes : Codes} {block : Nat} {code : BlockCode}

theorem exists_codeOf (translated : Translated flow codes)
    (reachable : flow.shape.graph.Reachable block) : ∃ code, codeOf flow codes block = .ok code :=
  (translated.coded reachable).imp fun _ => codeOf_eq_ok.mpr

/-- The exit of a block leads to its successors. -/
theorem exists_next (translated : Translated flow codes) (wellBuilt : flow.WellBuilt)
    (coded : codes.getD block none = some code) {offset : Nat}
    (member : offset ∈ code.exit.targets) :
    ∃ target ∈ flow.next block, blockAt? flow.blocks offset = some target := by
  obtain ⟨content, here, suits⟩ := translated.suits coded
  exact wellBuilt.continues here ((suits.targets offset).mp member)

end Translated

end Bytescript.Translation
