import Bytescript.Proofs.Translation.Waiting
import Bytescript.Proofs.Translation.CaseGroup

/-!
# How blocks are left

The code behind the statements of a block jumps to the block that a walk goes on with, or leaves
the method if the walk ends there.  What a jump looks like depends on the form of the code, so it
is left open here.
-/

set_option autoImplicit false

namespace Bytescript.Translation

open Bytescript.Flow Script Execution

variable {Thrown : Type} {oracle : Oracle Thrown} {flow : ControlFlow} {jump : Jump} {exit : Exit}
  {target : Nat} {history : History Thrown}

/-! ## Offsets of blocks -/

theorem blockStarting_eq_ok {offset index : Nat} :
    blockStarting flow offset = .ok index ↔ blockAt? flow.blocks offset = some index :=
  blockAt_eq_ok

/-- The same case with the offset and with the index of its block. -/
def SameCase (flow : ControlFlow) (one other : Int32 × Nat) : Prop :=
  one.1 = other.1 ∧ blockAt? flow.blocks one.2 = some other.2

theorem sameCase_biUnique : Relator.BiUnique (SameCase flow) := by
  constructor
  · rintro ⟨key, one⟩ ⟨_, other⟩ ⟨_, index⟩ ⟨rfl, here⟩ ⟨rfl, there⟩
    have start := ControlFlow.start_of_blockAt? here
    rw [ControlFlow.start_of_blockAt? there] at start
    exact congrArg _ start.symm
  · rintro ⟨key, offset⟩ ⟨_, one⟩ ⟨_, other⟩ ⟨rfl, here⟩ ⟨rfl, there⟩
    exact congrArg _ (Option.some.inj (here.symm.trans there))

/-- Searches for the same in related lists find what is related. -/
theorem rel_find? {α β : Type} {related : α → β → Prop} (wanted : α → Bool) (wanted' : β → Bool)
    {list : List α} {list' : List β} (lists : List.Forall₂ related list list')
    (same : ∀ one other, related one other → wanted one = wanted' other) :
    Option.Rel related (list.find? wanted) (list'.find? wanted') := by
  induction lists with
  | nil => exact .none
  | @cons one other _ _ here _ ih =>
    rw [List.find?_cons, List.find?_cons, same one other here]
    split
    · exact .some here
    · exact ih

/-- A switch leads to the same block, whether it names offsets or indices. -/
theorem blockAt?_switchTarget {cases located : List (Int32 × Nat)} {default first : Nat}
    (same : List.Forall₂ (SameCase flow) cases located)
    (last : blockAt? flow.blocks default = some first) (key : Int32) :
    blockAt? flow.blocks (switchTarget cases default key) =
      some (switchTarget located first key) := by
  have listed (one other : Int32 × Nat) (here : SameCase flow one other) :
      (key, one.2) ∈ cases ↔ (key, other.2) ∈ located :=
    List.rel_mem sameCase_biUnique (show SameCase flow (key, one.2) (key, other.2) from
      ⟨rfl, here.2⟩) same
  have found := rel_find? (fun entry => (key, entry.2) ∈ cases)
    (fun entry => (key, entry.2) ∈ located) same fun one other here =>
      decide_eq_decide.mpr (listed one other here)
  change blockAt? flow.blocks
      (((cases.find? fun entry => (key, entry.2) ∈ cases).map Prod.snd).getD default) =
    some (((located.find? fun entry => (key, entry.2) ∈ located).map Prod.snd).getD first)
  revert found
  generalize cases.find? _ = one
  generalize located.find? _ = other
  intro found
  cases found with
  | none => exact last
  | some here => exact here.2

theorem locate_eq_ok {cases located : List (Int32 × Nat)} :
    (cases.mapM fun (value, target) => do return (value, ← blockStarting flow target) :
      Except Failure (List (Int32 × Nat))) = .ok located ↔
        List.Forall₂ (SameCase flow) cases located := by
  rw [mapM_eq_ok]
  constructor
  · apply List.Forall₂.imp
    intro one other located
    obtain ⟨index, here, same⟩ := bind_eq_ok.mp located
    cases same
    exact ⟨rfl, blockStarting_eq_ok.mp here⟩
  · apply List.Forall₂.imp
    intro one other same
    exact bind_eq_ok.mpr ⟨other.2, blockStarting_eq_ok.mpr same.2, congrArg _ (by rw [same.1])⟩

/-- Every group of cases leads to a block that the switch names. -/
theorem exists_offset_of_mem_ofCases (key : Variable) {cases located : List (Int32 × Nat)}
    {default first : Nat} (same : List.Forall₂ (SameCase flow) cases located)
    (last : blockAt? flow.blocks default = some first)
    (member : target ∈ (CaseGroup.ofCases located first).map CaseGroup.target) :
    ∃ offset ∈ (Exit.switch key cases default).targets,
      blockAt? flow.blocks offset = some target := by
  rcases List.mem_append.mp (CaseGroup.mem_ofCases.mp member) with listed | only
  · obtain ⟨entry, found, rfl⟩ := List.mem_map.mp listed
    obtain ⟨offset, named, here⟩ := exists_of_forall₂_right same found
    exact ⟨offset.2, List.mem_append_left _ (List.mem_map_of_mem named), here.2⟩
  · rw [List.mem_singleton.mp only]
    exact ⟨default, List.mem_append_right _ (List.mem_singleton.mpr rfl), last⟩

theorem switchTarget_mem_targets (source : Variable) (cases : List (Int32 × Nat)) (default : Nat)
    (key : Int32) :
    switchTarget cases default key ∈ (Exit.switch source cases default).targets := by
  rw [switchTarget]
  cases found : cases.find? _ with
  | none => exact List.mem_append_right _ (List.mem_singleton.mpr rfl)
  | some other =>
    exact List.mem_append_left _ (List.mem_map_of_mem (List.mem_of_find?_eq_some found))

/-- A walk goes from a block to a target of its exit. -/
theorem exists_target_of_afterExit (goes : afterExit flow oracle history exit = .inside target) :
    ∃ offset ∈ exit.targets, blockAt? flow.blocks offset = some target := by
  have arrives {offset : Nat} (here : arriveAt flow offset = (.inside target : Position Thrown)) :
      blockAt? flow.blocks offset = some target := by
    rw [arriveAt] at here
    split at here
    next found =>
      cases here
      exact found
    · cases here
  cases exit with
  | goto offset => exact ⟨offset, List.mem_singleton.mpr rfl, arrives goes⟩
  | branch condition yes no =>
    refine ⟨_, ?_, arrives goes⟩
    split
    · exact List.mem_cons_self
    · exact .tail _ List.mem_cons_self
  | switch key cases default => exact ⟨_, switchTarget_mem_targets .., arrives goes⟩
  | leave value => cases goes
  | throw => cases goes

/-! ## The code of exits -/

/-- The code of an exit can be made if its jumps can. -/
theorem exists_exitSkeleton
    (jumps : ∀ offset ∈ exit.targets, ∃ target, blockAt? flow.blocks offset = some target ∧
      ∃ body, jump target = .ok body) :
    ∃ skeleton, exitSkeleton flow jump exit = .ok skeleton := by
  cases exit with
  | goto offset =>
    obtain ⟨target, here, body, made⟩ := jumps offset (List.mem_singleton.mpr rfl)
    exact ⟨body, bind_eq_ok.mpr ⟨target, blockStarting_eq_ok.mpr here, made⟩⟩
  | branch condition yes no =>
    obtain ⟨target, here, body, made⟩ := jumps yes List.mem_cons_self
    obtain ⟨otherwise, there, body', made'⟩ := jumps no (.tail _ List.mem_cons_self)
    refine ⟨if target = otherwise then body else .choose condition body body', ?_⟩
    refine bind_eq_ok.mpr ⟨target, blockStarting_eq_ok.mpr here,
      bind_eq_ok.mpr ⟨otherwise, blockStarting_eq_ok.mpr there, ?_⟩⟩
    split
    · exact made
    · exact bind_eq_ok.mpr ⟨body, made, bind_eq_ok.mpr ⟨body', made', rfl⟩⟩
  | switch key cases default =>
    obtain ⟨first, last, body, made⟩ := jumps default (List.mem_append_right _ (by simp))
    obtain ⟨located, same⟩ : ∃ located, List.Forall₂ (SameCase flow) cases located := by
      refine (exists_mapM_eq_ok fun entry member => ?_).imp fun _ => locate_eq_ok.mp
      obtain ⟨target, here, _⟩ :=
        jumps entry.2 (List.mem_append_left _ (List.mem_map_of_mem member))
      exact ⟨(entry.1, target), bind_eq_ok.mpr ⟨target, blockStarting_eq_ok.mpr here, rfl⟩⟩
    obtain ⟨code, made⟩ : ∃ code, casesOf jump (CaseGroup.ofCases located first) = .ok code := by
      apply CaseGroup.exists_casesOf
      intro group member
      obtain ⟨offset, named, here⟩ := exists_offset_of_mem_ofCases key same last
        (List.mem_map_of_mem member)
      obtain ⟨other, there, made⟩ := jumps offset named
      cases here.symm.trans there
      exact made
    exact ⟨.switch key code, bind_eq_ok.mpr ⟨located, locate_eq_ok.mpr same,
      bind_eq_ok.mpr ⟨first, blockStarting_eq_ok.mpr last, bind_eq_ok.mpr ⟨code, made, rfl⟩⟩⟩⟩
  | leave value => exact ⟨_, rfl⟩
  | throw => exact ⟨_, rfl⟩

/-- Statements that complete do not end by throwing. -/
theorem Translated.exit_ne_throw {codes : Codes} {block : Nat} {code : BlockCode}
    (translated : Translated flow codes) (coded : codes.getD block none = some code)
    (outcome : oracle.outcome code.statements history = none) : code.exit ≠ .throw := by
  intro throws
  obtain ⟨content, _, suits⟩ := translated.suits coded
  obtain ⟨exception, last⟩ := suits.throws throws
  exact oracle.outcome_of_throw last history outcome

theorem arriveAt_of_blockAt? {offset : Nat} (found : blockAt? flow.blocks offset = some target) :
    arriveAt flow offset = (.inside target : Position Thrown) := by
  rw [arriveAt, found]

/-- Running the code of an exit jumps to where a walk goes on, or leaves the method if the walk
ends there. -/
theorem run_exitSkeleton (oracle : Oracle Thrown) (history : History Thrown)
    {skeleton : Skeleton} (made : exitSkeleton flow jump exit = .ok skeleton)
    (stays : exit ≠ .throw) (frames : List (Frame Thrown)) (next : ℕ) :
    (∃ target body inner, afterExit flow oracle history exit = .inside target ∧
      jump target = .ok body ∧ (∀ frame ∈ inner, ∃ behind, frame = .cases behind) ∧
      Reaches oracle ⟨.run skeleton, frames, next, history⟩
        ⟨.run body, inner ++ frames, next, history⟩) ∨
    ∃ value, afterExit flow oracle history exit = .ended (.returned value) ∧
      Reaches oracle ⟨.run skeleton, frames, next, history⟩
        ⟨.complete (.leaves value), frames, next, history⟩ := by
  cases exit with
  | goto offset =>
    obtain ⟨target, here, made⟩ := bind_eq_ok.mp made
    exact .inl ⟨target, skeleton, [], arriveAt_of_blockAt? (blockStarting_eq_ok.mp here), made,
      by simp, .refl⟩
  | branch condition yes no =>
    obtain ⟨target, here, made⟩ := bind_eq_ok.mp made
    obtain ⟨otherwise, there, made⟩ := bind_eq_ok.mp made
    have here : arriveAt flow yes = (.inside target : Position Thrown) :=
      arriveAt_of_blockAt? (blockStarting_eq_ok.mp here)
    have there : arriveAt flow no = (.inside otherwise : Position Thrown) :=
      arriveAt_of_blockAt? (blockStarting_eq_ok.mp there)
    left
    split at made
    next same =>
      refine ⟨target, skeleton, [], ?_, made, by simp, .refl⟩
      rw [afterExit]
      split
      · exact here
      · exact same ▸ there
    next =>
      obtain ⟨body, yes, rest⟩ := bind_eq_ok.mp made
      obtain ⟨body', no, same⟩ := bind_eq_ok.mp rest
      cases same
      cases holds : oracle.holds history condition with
      | true =>
        refine ⟨target, body, [], by rw [afterExit, holds]; exact here, yes, by simp, ?_⟩
        exact .single ⟨trivial, by simp [State.step, State.stepRun, holds]⟩
      | false =>
        refine ⟨otherwise, body', [], by rw [afterExit, holds]; exact there, no, by simp, ?_⟩
        exact .single ⟨trivial, by simp [State.step, State.stepRun, holds]⟩
  | switch key cases default =>
    obtain ⟨located, same, made⟩ := bind_eq_ok.mp made
    obtain ⟨first, last, made⟩ := bind_eq_ok.mp made
    obtain ⟨code, grouped, made⟩ := bind_eq_ok.mp made
    cases made
    obtain ⟨body, behind, selected, jumps⟩ :=
      CaseGroup.selectCase_casesOf grouped (oracle.value history key)
    have target := blockAt?_switchTarget (locate_eq_ok.mp same) (blockStarting_eq_ok.mp last)
      (oracle.value history key)
    refine .inl ⟨_, body, [.cases behind], arriveAt_of_blockAt? target, jumps, by simp, ?_⟩
    exact .single ⟨trivial, by simp [State.step, State.stepRun, selected, State.push]⟩
  | leave value =>
    cases made
    exact .inr ⟨value, rfl, .single ⟨trivial, rfl⟩⟩
  | throw => exact absurd rfl stays

end Bytescript.Translation
