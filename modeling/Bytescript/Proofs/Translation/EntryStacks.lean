import Bytescript.Proofs.Translation.Body

/-!
# The stacks that blocks are entered with

Blocks are translated while the stacks that they are entered with are still being found, one block
at a time.  What is found is determined by the flow alone: the entry has an empty stack, a block
leaves one stack to all of its successors, and a handler finds the exception and nothing else.  An
assignment of stacks that satisfies this is unique on the blocks that can be reached, and the
translation succeeds exactly if there is one.

If there is an assignment, it tells every entry that a step will find, so no step fails, in
whatever order blocks are taken.  When no block waits any more, what was found is an assignment
again, and the code of a block is what it is translated to from there.
-/

set_option autoImplicit false

namespace Bytescript.Translation

open Bytescript.Flow Script

variable {scope : Scope} {flow : ControlFlow} {assigned : Nat → Stack}

/-! ## Assignments -/

/-- Stacks that the blocks which can be reached may be entered with: the entry with an empty one,
every block with one that it can be translated from, its successors with what it leaves, and its
handlers with the exception alone. -/
structure Consistent (scope : Scope) (flow : ControlFlow) (assigned : Nat → Stack) : Prop where
  entry : assigned ControlFlow.entry = []
  blocks : ∀ {block : Nat}, flow.shape.graph.Reachable block →
    ∃ content code left, flow.blocks[block]? = some content ∧
      translateBlock scope content (assigned block) = .ok (code, left) ∧
      ∀ target ∈ flow.next block, assigned target = left
  handlers : ∀ {block : Nat}, flow.shape.graph.Reachable block →
    ∀ handler ∈ flow.covering block, assigned handler.target = handlerStack

namespace Consistent

/-- Every block is entered with the stacks that other blocks pass to it. -/
theorem passes (consistent : Consistent scope flow assigned) {block : Nat}
    (reachable : flow.shape.graph.Reachable block) :
    ∃ content code left, flow.blocks[block]? = some content ∧
      translateBlock scope content (assigned block) = .ok (code, left) ∧
      ∀ {target : Nat} {stack : Stack}, Passes flow block left target stack →
        assigned target = stack := by
  obtain ⟨content, code, left, here, translated, next⟩ := consistent.blocks reachable
  refine ⟨content, code, left, here, translated, fun passes => ?_⟩
  cases passes with
  | next listed => exact next _ listed
  | handler listed => exact consistent.handlers reachable _ listed

/-- Blocks that can be reached are entered with the same stacks by all assignments. -/
theorem unique (wellBuilt : flow.WellBuilt) {others : Nat → Stack}
    (one : Consistent scope flow assigned) (other : Consistent scope flow others) {block : Nat}
    (reachable : flow.shape.graph.Reachable block) : assigned block = others block := by
  induction reachable with
  | entry _ _ => exact one.entry.trans other.entry.symm
  | step reachable edge _ same =>
    obtain ⟨content, code, left, here, translated, passes⟩ := one.passes reachable
    obtain ⟨content', code', left', here', translated', passes'⟩ := other.passes reachable
    cases here.symm.trans here'
    rw [same] at translated
    cases translated.symm.trans translated'
    obtain ⟨stack, passed⟩ := exists_passes left wellBuilt edge
    exact (passes passed).trans (passes' passed).symm

end Consistent

namespace Progress

variable {before after progress : Progress}

/-! ## Steps under an assignment -/

/-- All entries are known as an assignment tells them. -/
def Agrees (progress : Progress) (assigned : Nat → Stack) : Prop :=
  ∀ {block : Nat} {stack : Stack}, progress.EnteredWith block stack → assigned block = stack

/-- The stacks that blocks are known to be entered with. -/
def found (progress : Progress) (block : Nat) : Stack :=
  (progress.entries.getD block none).getD []

theorem agrees_found (progress : Progress) : progress.Agrees progress.found := by
  intro block stack entered
  rw [found, entered, Option.getD_some]

theorem Grows.agrees {passed : Nat → Stack → Prop} (grows : Grows passed before after)
    (tells : ∀ {block : Nat} {stack : Stack}, passed block stack → assigned block = stack)
    (agrees : before.Agrees assigned) : after.Agrees assigned := by
  intro block stack entered
  rcases grows.new entered with early | ⟨passed, _⟩
  · exact agrees early
  · exact tells passed

theorem exists_enter (flow : ControlFlow) {stack : Stack} {block : Nat}
    (agrees : before.Agrees assigned) (tells : assigned block = stack) :
    ∃ after, enter flow stack before block = .ok after := by
  rw [enter]
  split
  · exact ⟨_, rfl⟩
  next known here => exact ⟨before, if_pos ((agrees here).symm.trans tells)⟩

theorem exists_foldlM_enter (flow : ControlFlow) {stack : Stack} {targets : List Nat}
    (inside : ∀ target ∈ targets, target < before.entries.size) (agrees : before.Agrees assigned)
    (tells : ∀ target ∈ targets, assigned target = stack) :
    ∃ after, targets.foldlM (enter flow stack) before = .ok after := by
  induction targets generalizing before with
  | nil => exact ⟨before, rfl⟩
  | cons target rest ih =>
    obtain ⟨insideFirst, insideRest⟩ := List.forall_mem_cons.mp inside
    obtain ⟨tellsFirst, tellsRest⟩ := List.forall_mem_cons.mp tells
    obtain ⟨middle, here⟩ := exists_enter flow agrees tellsFirst
    obtain ⟨grows, _⟩ := enter_grows (assigned · = ·) insideFirst tellsFirst here
    obtain ⟨after, there⟩ := ih (grows.size ▸ insideRest) (grows.agrees id agrees) tellsRest
    exact ⟨after, by rw [List.foldlM_cons]; exact bind_eq_ok.mpr ⟨middle, here, there⟩⟩

/-- No visit fails if an assignment tells all entries. -/
theorem exists_visit (wellBuilt : flow.WellBuilt) (consistent : Consistent scope flow assigned)
    (before : Progress) (size : before.entries.size = flow.size)
    (agrees : before.Agrees assigned) {block : Nat}
    (reachable : flow.shape.graph.Reachable block) :
    ∃ after, visit scope flow block before = .ok after := by
  obtain ⟨content, code, left, here, translated, passes⟩ := consistent.passes reachable
  rw [visit]
  split
  next content' stack here' known =>
    cases here.symm.trans here'
    rw [agrees known] at translated
    have nexts (target : Nat) (listed : target ∈ flow.next block) :
        Passes flow block left target left := .next listed
    have inside (target : Nat) (listed : target ∈ flow.next block) :
        target < before.entries.size := size ▸ wellBuilt.next_lt listed
    obtain ⟨between, successors⟩ := exists_foldlM_enter flow inside agrees
      fun target listed => passes (nexts target listed)
    obtain ⟨grows, _⟩ := foldlM_enter_grows (Passes flow block left) inside nexts successors
    have inside' : ∀ target ∈ (flow.covering block).map Handler.target,
        target < between.entries.size := List.forall_mem_map.mpr fun _ listed => by
      rw [grows.size, size]
      exact wellBuilt.covering_lt listed
    obtain ⟨middle, handlers⟩ := exists_foldlM_enter flow inside' (grows.agrees passes agrees)
      (List.forall_mem_map.mpr fun _ listed => passes (.handler listed))
    exact ⟨_, bind_eq_ok.mpr ⟨_, translated, bind_eq_ok.mpr ⟨between, successors,
      bind_eq_ok.mpr ⟨middle, handlers, rfl⟩⟩⟩⟩
  next => exact ⟨before, rfl⟩

theorem Step.agrees (wellBuilt : flow.WellBuilt) (consistent : Consistent scope flow assigned)
    (sound : before.Sound scope flow) (agrees : before.Agrees assigned)
    (step : Step scope flow before after) : after.Agrees assigned := by
  obtain @⟨front, rest, block, waits, visited⟩ := step
  obtain ⟨stack, known⟩ : before.Entered block := sound.pending (by simp [waits])
  obtain ⟨content, code, left, middle, here, translated, grows, _, rfl⟩ :=
    visit_cases wellBuilt visited sound.entries known
  obtain ⟨content', code', left', here', translated', passes⟩ :=
    consistent.passes (sound.reachable ⟨stack, known⟩)
  cases here.symm.trans here'
  rw [agrees known] at translated'
  cases translated.symm.trans translated'
  exact grows.agrees passes agrees

theorem Steps.agrees (wellBuilt : flow.WellBuilt) (consistent : Consistent scope flow assigned)
    (steps : Steps scope flow (start flow) progress) : progress.Agrees assigned := by
  induction steps with
  | refl =>
    intro block stack entered
    obtain ⟨rfl, rfl⟩ := (enteredWith_start wellBuilt).mp entered
    exact consistent.entry
  | tail steps step ih =>
    exact step.agrees wellBuilt consistent (Steps.sound wellBuilt (start_sound wellBuilt) steps) ih

/-- If there is an assignment, the translation of a method does not fail. -/
theorem exists_run (wellBuilt : flow.WellBuilt) (consistent : Consistent scope flow assigned)
    (fuel : Nat) (sound : before.Sound scope flow) (agrees : before.Agrees assigned) :
    ∃ after, run scope flow fuel before = .ok after := by
  induction fuel generalizing before with
  | zero => exact ⟨before, rfl⟩
  | succ fuel ih =>
    rw [run]
    split
    · exact ⟨before, rfl⟩
    next block rest next =>
      obtain ⟨stack, known⟩ : before.Entered block := sound.pending (by simp [next])
      obtain ⟨middle, visited⟩ := exists_visit wellBuilt consistent
        { before with pending := rest } sound.entries agrees (sound.reachable ⟨stack, known⟩)
      have step : Step scope flow before middle := .latest next visited
      obtain ⟨after, finished⟩ :=
        ih (step.sound wellBuilt sound).1 (step.agrees wellBuilt consistent sound agrees)
      exact ⟨after, bind_eq_ok.mpr ⟨middle, visited, finished⟩⟩

/-! ## When no block waits any more -/

/-- In the end, the stacks that were found are an assignment. -/
theorem Sound.consistent (wellBuilt : flow.WellBuilt) (sound : progress.Sound scope flow)
    (done : progress.pending = []) : Consistent scope flow progress.found := by
  refine ⟨agrees_found progress sound.entry, fun {block} reachable => ?_,
    fun {block} reachable handler listed => ?_⟩
  · obtain ⟨code, coded⟩ := (sound.hasCode_iff wellBuilt done).mpr reachable
    obtain ⟨content, stack, left, here, entered, translated, passes⟩ := sound.settled coded
    rw [← agrees_found progress entered] at translated
    exact ⟨content, code, left, here, translated,
      fun target listed => agrees_found progress (passes (.next listed))⟩
  · obtain ⟨code, coded⟩ := (sound.hasCode_iff wellBuilt done).mpr reachable
    obtain ⟨_, _, _, _, _, _, passes⟩ := sound.settled coded
    exact agrees_found progress (passes (.handler listed))

/-- In the end, the code of a block is what it becomes under an assignment. -/
theorem Sound.translated (wellBuilt : flow.WellBuilt) (sound : progress.Sound scope flow)
    (done : progress.pending = []) (consistent : Consistent scope flow assigned) {block : Nat}
    {code : BlockCode} (coded : progress.HasCode block code) :
    ∃ content left, flow.blocks[block]? = some content ∧
      translateBlock scope content (assigned block) = .ok (code, left) := by
  obtain ⟨content, stack, left, here, entered, translated, _⟩ := sound.settled coded
  have reachable := (sound.hasCode_iff wellBuilt done).mp ⟨code, coded⟩
  have same := (sound.consistent wellBuilt done).unique wellBuilt consistent reachable
  rw [agrees_found progress entered] at same
  exact ⟨content, left, here, same ▸ translated⟩

/-- In the end, the code of all blocks is always the same. -/
theorem Sound.codes_eq (wellBuilt : flow.WellBuilt) {other : Progress}
    (sound : progress.Sound scope flow) (done : progress.pending = [])
    (sound' : other.Sound scope flow) (done' : other.pending = []) :
    progress.codes = other.codes := by
  have transfer {one two : Progress} (sound : one.Sound scope flow) (done : one.pending = [])
      (sound' : two.Sound scope flow) (done' : two.pending = []) (block : Nat) (code : BlockCode)
      (coded : one.HasCode block code) : two.HasCode block code := by
    have consistent := sound'.consistent wellBuilt done'
    have reachable := (sound.hasCode_iff wellBuilt done).mp ⟨code, coded⟩
    obtain ⟨code', coded'⟩ := (sound'.hasCode_iff wellBuilt done').mpr reachable
    obtain ⟨_, _, here, translated⟩ := sound.translated wellBuilt done consistent coded
    obtain ⟨_, _, here', translated'⟩ := sound'.translated wellBuilt done' consistent coded'
    cases here.symm.trans here'
    cases translated.symm.trans translated'
    exact coded'
  have size := sound.codes.trans sound'.codes.symm
  refine Array.ext size fun block inside inside' => Option.ext fun code => ?_
  have one := transfer sound done sound' done' block code
  have two := transfer sound' done' sound done block code
  simp only [HasCode, Array.getD_eq_getD_getElem?, Array.getElem?_eq_getElem inside,
    Array.getElem?_eq_getElem inside', Option.getD_some] at one two
  exact ⟨one, two⟩

end Progress

/-! ## The translation of all blocks -/

theorem exists_translateBlocks (wellBuilt : flow.WellBuilt)
    (consistent : Consistent scope flow assigned) :
    ∃ codes, translateBlocks scope flow = .ok codes := by
  obtain ⟨progress, finished⟩ := Progress.exists_run wellBuilt consistent flow.size
    (Progress.start_sound wellBuilt) (Progress.Steps.agrees wellBuilt consistent .refl)
  exact ⟨progress.codes, map_eq_ok.mpr ⟨progress, finished, rfl⟩⟩

/-- What every order of taking blocks comes to: it takes at most as many steps as there are blocks,
no step fails if there is an assignment, and its result is that of the translation. -/
structure Progress.OrderFree (scope : Scope) (flow : ControlFlow) (progress : Progress) : Prop where
  bounded : progress.budget ≤ flow.size
  ends : ∀ {after : Progress}, Step scope flow progress after →
    after.budget + 1 = progress.budget
  goesOn : ∀ {assigned : Nat → Stack}, Consistent scope flow assigned →
    ∀ {front rest : List Nat} {block : Nat}, progress.pending = front ++ block :: rest →
      ∃ after, visit scope flow block { progress with pending := front ++ rest } = .ok after
  result : progress.pending = [] → translateBlocks scope flow = .ok progress.codes

theorem Progress.Steps.orderFree (wellBuilt : flow.WellBuilt) {progress : Progress}
    (steps : Steps scope flow (.start flow) progress) : progress.OrderFree scope flow := by
  have sound := Steps.sound wellBuilt (start_sound wellBuilt) steps
  refine ⟨?_, fun step => (step.sound wellBuilt sound).2,
    fun consistent front rest block waits => ?_, fun done => ?_⟩
  · induction steps with
    | refl => exact (budget_start wellBuilt).le
    | tail steps step ih =>
      have sound := Steps.sound wellBuilt (start_sound wellBuilt) steps
      have less := (step.sound wellBuilt sound).2
      exact le_trans (by omega) (ih sound)
  · obtain ⟨stack, known⟩ : progress.Entered block := sound.pending (by simp [waits])
    exact exists_visit wellBuilt consistent { progress with pending := front ++ rest } sound.entries
      (Steps.agrees wellBuilt consistent steps) (sound.reachable ⟨stack, known⟩)
  · obtain ⟨codes, translated⟩ := exists_translateBlocks wellBuilt (sound.consistent wellBuilt done)
    obtain ⟨last, steps', done', rfl⟩ := steps_of_translateBlocks wellBuilt translated
    have sound' := Steps.sound wellBuilt (start_sound wellBuilt) steps'
    rw [translated, sound'.codes_eq wellBuilt done' sound done]

/-- What the translation of all blocks gives: code for exactly the blocks that can be reached, each
translated from the stack assigned to it, and each left for exactly its successors.  So the body of
the method can be written. -/
structure Exact (scope : Scope) (flow : ControlFlow) (codes : Codes) : Prop where
  size : codes.size = flow.size
  coded : ∀ block, (∃ code, codes.getD block none = some code) ↔
    flow.shape.graph.Reachable block
  translated : ∀ {assigned : Nat → Stack}, Consistent scope flow assigned →
    ∀ {block : Nat} {code : BlockCode}, codes.getD block none = some code →
      ∃ content left, flow.blocks[block]? = some content ∧
        translateBlock scope content (assigned block) = .ok (code, left)
  /-- Every offset that the code of a block leads to is the start of a successor. -/
  leads : ∀ {block : Nat} {code : BlockCode}, codes.getD block none = some code →
    ∀ offset ∈ code.exit.targets,
      ∃ target ∈ flow.next block, blockAt? flow.blocks offset = some target
  /-- The code of a block leads to every successor. -/
  reaches : ∀ {block : Nat} {code : BlockCode}, codes.getD block none = some code →
    ∀ target ∈ flow.next block,
      ∃ offset ∈ code.exit.targets, blockAt? flow.blocks offset = some target
  body : ∃ body, bodyOf flow codes = .ok body

theorem translateBlocks_exact (wellBuilt : flow.WellBuilt) {codes : Codes}
    (done : translateBlocks scope flow = .ok codes) : Exact scope flow codes := by
  have translated := translateBlocks_translated wellBuilt done
  obtain ⟨progress, steps, empty, rfl⟩ := steps_of_translateBlocks wellBuilt done
  have sound := Progress.Steps.sound wellBuilt (Progress.start_sound wellBuilt) steps
  exact {
    size := sound.codes
    coded := fun block => sound.hasCode_iff wellBuilt empty
    translated := sound.translated wellBuilt empty
    leads := fun coded _ => translated.exists_next wellBuilt coded
    reaches := fun coded target listed => by
      obtain ⟨content, here, suits⟩ := translated.suits coded
      obtain ⟨offset, goes, found⟩ := wellBuilt.comes here listed
      exact ⟨offset, (suits.targets offset).mpr goes, found⟩
    body := exists_bodyOf wellBuilt translated }

/-- How the stacks that blocks are entered with decide what becomes of a method. -/
structure DecidedByStacks (scope : Scope) (flow : ControlFlow) : Prop where
  succeeds : (∃ codes, translateBlocks scope flow = .ok codes) ↔
    ∃ assigned, Consistent scope flow assigned
  unique : ∀ {assigned others : Nat → Stack}, Consistent scope flow assigned →
    Consistent scope flow others →
      ∀ block, flow.shape.graph.Reachable block → assigned block = others block
  orderFree : ∀ progress : Progress, Progress.Steps scope flow (.start flow) progress →
    progress.OrderFree scope flow
  exact : ∀ codes, translateBlocks scope flow = .ok codes → Exact scope flow codes

/-- **The translation of blocks follows their stacks.**  It succeeds exactly if there are stacks
that all blocks can be entered with, which are unique then.  The order in which blocks are taken
does not matter, and the code that comes out has the form of the flow. -/
theorem translateBlocks_decidedByStacks {pool : ConstantPool} {code : Code}
    {instructions : List Placed} (decoded : code.decode pool = .ok instructions)
    (built : ControlFlow.build instructions code.exceptionTable code.bytecode.length = .ok flow) :
    DecidedByStacks scope flow := by
  have wellBuilt := ControlFlow.wellBuilt_of_decode decoded built
  refine ⟨⟨?_, fun ⟨_, consistent⟩ => exists_translateBlocks wellBuilt consistent⟩,
    fun one other _ => one.unique wellBuilt other,
    fun _ steps => Progress.Steps.orderFree wellBuilt steps,
    fun _ => translateBlocks_exact wellBuilt⟩
  rintro ⟨codes, done⟩
  obtain ⟨progress, steps, empty, _⟩ := steps_of_translateBlocks wellBuilt done
  have sound := Progress.Steps.sound wellBuilt (Progress.start_sound wellBuilt) steps
  exact ⟨progress.found, sound.consistent wellBuilt empty⟩

theorem translateBlocks_countdown_decidedByStacks :
    ∃ instructions flow, countdown.decode .empty = .ok instructions ∧
      ControlFlow.build instructions countdown.exceptionTable countdown.bytecode.length =
        .ok flow ∧
      (∃ assigned, Consistent lone flow assigned) ∧ DecidedByStacks lone flow := by
  obtain ⟨flow, codes, prepared, _⟩ := exists_prepare lone .empty countdown
    (fun _ _ => true) (by decide +kernel)
  obtain ⟨instructions, decoded, built, translated⟩ := prepare_eq_ok.mp prepared
  have decided : DecidedByStacks lone flow := translateBlocks_decidedByStacks decoded built
  exact ⟨instructions, flow, decoded, built, decided.succeeds.mp ⟨codes, translated⟩, decided⟩

end Bytescript.Translation
