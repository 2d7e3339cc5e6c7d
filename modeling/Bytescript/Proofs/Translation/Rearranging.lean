import Bytescript.Proofs.Translation.Holders
import Bytescript.Proofs.Translation.Positions
import Bytescript.Translation.Instruction

/-!
# Rearranging the top of the stack

The specification of the machine lists the forms of each instruction that moves values: which
values it takes, by the words that they count as, and what it gives for them.  An instruction is
translated exactly if one of its forms fits the kinds on the stack, and then the assignments leave
in the variables of the new stack what the form gives.

Two things make that hold for all forms at once.  The values that make up a number of words are
determined by the kinds, so a form is no more than two numbers of words and an order.  And an
assignment to the top of a growing stack only overwrites variables above all that are read later:
the sources either lie below, or were put aside before.
-/

set_option autoImplicit false

namespace Bytescript.Translation

open Script

variable {α Other : Type}

/-! ## Forms -/

section Forms

variable (kind : α → Kind)

/-- What an instruction gives for the values on top of the stack, by the forms that the machine
specifies for it, in their order.  All values are listed with the top first. -/
inductive Rearranges : Instruction → List α → List α → Prop
  | pop {v₁ : α} : (kind v₁).words = 1 → Rearranges .pop [v₁] []
  | pop2₁ {v₁ v₂ : α} : (kind v₁).words = 1 → (kind v₂).words = 1 → Rearranges .pop2 [v₁, v₂] []
  | pop2₂ {v₁ : α} : (kind v₁).words = 2 → Rearranges .pop2 [v₁] []
  | dup {v₁ : α} : (kind v₁).words = 1 → Rearranges (.shuffle .dup) [v₁] [v₁, v₁]
  | dupX1 {v₁ v₂ : α} : (kind v₁).words = 1 → (kind v₂).words = 1 →
      Rearranges (.shuffle .dupX1) [v₁, v₂] [v₁, v₂, v₁]
  | dupX2₁ {v₁ v₂ v₃ : α} :
      (kind v₁).words = 1 → (kind v₂).words = 1 → (kind v₃).words = 1 →
      Rearranges (.shuffle .dupX2) [v₁, v₂, v₃] [v₁, v₂, v₃, v₁]
  | dupX2₂ {v₁ v₂ : α} : (kind v₁).words = 1 → (kind v₂).words = 2 →
      Rearranges (.shuffle .dupX2) [v₁, v₂] [v₁, v₂, v₁]
  | dup2₁ {v₁ v₂ : α} : (kind v₁).words = 1 → (kind v₂).words = 1 →
      Rearranges (.shuffle .dup2) [v₁, v₂] [v₁, v₂, v₁, v₂]
  | dup2₂ {v₁ : α} : (kind v₁).words = 2 → Rearranges (.shuffle .dup2) [v₁] [v₁, v₁]
  | dup2X1₁ {v₁ v₂ v₃ : α} :
      (kind v₁).words = 1 → (kind v₂).words = 1 → (kind v₃).words = 1 →
      Rearranges (.shuffle .dup2X1) [v₁, v₂, v₃] [v₁, v₂, v₃, v₁, v₂]
  | dup2X1₂ {v₁ v₂ : α} : (kind v₁).words = 2 → (kind v₂).words = 1 →
      Rearranges (.shuffle .dup2X1) [v₁, v₂] [v₁, v₂, v₁]
  | dup2X2₁ {v₁ v₂ v₃ v₄ : α} :
      (kind v₁).words = 1 → (kind v₂).words = 1 → (kind v₃).words = 1 → (kind v₄).words = 1 →
      Rearranges (.shuffle .dup2X2) [v₁, v₂, v₃, v₄] [v₁, v₂, v₃, v₄, v₁, v₂]
  | dup2X2₂ {v₁ v₂ v₃ : α} :
      (kind v₁).words = 2 → (kind v₂).words = 1 → (kind v₃).words = 1 →
      Rearranges (.shuffle .dup2X2) [v₁, v₂, v₃] [v₁, v₂, v₃, v₁]
  | dup2X2₃ {v₁ v₂ v₃ : α} :
      (kind v₁).words = 1 → (kind v₂).words = 1 → (kind v₃).words = 2 →
      Rearranges (.shuffle .dup2X2) [v₁, v₂, v₃] [v₁, v₂, v₃, v₁, v₂]
  | dup2X2₄ {v₁ v₂ : α} : (kind v₁).words = 2 → (kind v₂).words = 2 →
      Rearranges (.shuffle .dup2X2) [v₁, v₂] [v₁, v₂, v₁]
  | swap {v₁ v₂ : α} : (kind v₁).words = 1 → (kind v₂).words = 1 →
      Rearranges (.shuffle .swap) [v₁, v₂] [v₂, v₁]

/-- The instructions that only move values of the stack. -/
def IsRearranging : Instruction → Prop
  | .pop | .pop2 | .shuffle _ => True
  | _ => False

/-- How many words values count as. -/
def wordCount (values : List α) : Nat := (values.map fun value => (kind value).words).sum

variable {kind}

theorem words_eq_one_or_two (kind : Kind) : kind.words = 1 ∨ kind.words = 2 := by
  cases kind <;> decide

theorem words_of_isWide {kind : Kind} (wide : kind.isWide = true) : kind.words = 2 := if_pos wide

theorem words_of_not_isWide {kind : Kind} (narrow : ¬kind.isWide = true) : kind.words = 1 :=
  if_neg narrow

theorem not_isWide_of_words {kind : Kind} (one : kind.words = 1) : ¬kind.isWide = true := by
  intro wide
  rw [words_of_isWide wide] at one
  cases one

theorem wordCount_cons {value : α} {rest : List α} :
    wordCount kind (value :: rest) = (kind value).words + wordCount kind rest := by
  rw [wordCount, List.map_cons, List.sum_cons, wordCount]

theorem wordCount_eq_zero {values : List α} : wordCount kind values = 0 ↔ values = [] := by
  cases values with
  | nil => simp [wordCount]
  | cons value rest =>
    have positive := words_eq_one_or_two (kind value)
    rw [wordCount_cons]
    simp only [reduceCtorEq, iff_false]
    omega

theorem wordCount_eq_one {values : List α} :
    wordCount kind values = 1 ↔ ∃ v₁, values = [v₁] ∧ (kind v₁).words = 1 := by
  constructor
  · intro one
    cases values with
    | nil => cases one
    | cons value rest =>
      rw [wordCount_cons] at one
      have positive := words_eq_one_or_two (kind value)
      obtain rfl := wordCount_eq_zero.mp (show wordCount kind rest = 0 by omega)
      exact ⟨value, rfl, by rw [← one]; rfl⟩
  · rintro ⟨value, rfl, one⟩
    rw [wordCount_cons, one]
    rfl

theorem wordCount_eq_two {values : List α} :
    wordCount kind values = 2 ↔
      (∃ v₁ v₂, values = [v₁, v₂] ∧ (kind v₁).words = 1 ∧ (kind v₂).words = 1) ∨
        ∃ v₁, values = [v₁] ∧ (kind v₁).words = 2 := by
  constructor
  · intro two
    cases values with
    | nil => cases two
    | cons value rest =>
      rw [wordCount_cons] at two
      rcases words_eq_one_or_two (kind value) with one | wide
      · obtain ⟨other, rfl, one'⟩ := wordCount_eq_one.mp (show wordCount kind rest = 1 by omega)
        exact .inl ⟨value, other, rfl, one, one'⟩
      · obtain rfl := wordCount_eq_zero.mp (show wordCount kind rest = 0 by omega)
        exact .inr ⟨value, rfl, wide⟩
  · rintro (⟨value, other, rfl, one, one'⟩ | ⟨value, rfl, wide⟩)
    · rw [wordCount_cons, wordCount_cons, one, one']
      rfl
    · rw [wordCount_cons, wide]
      rfl

theorem wordCount_single {v₁ : α} (one : (kind v₁).words = 1) : wordCount kind [v₁] = 1 :=
  wordCount_eq_one.mpr ⟨v₁, rfl, one⟩

theorem wordCount_pair {v₁ v₂ : α} (one : (kind v₁).words = 1) (one' : (kind v₂).words = 1) :
    wordCount kind [v₁, v₂] = 2 :=
  wordCount_eq_two.mpr (.inl ⟨v₁, v₂, rfl, one, one'⟩)

theorem wordCount_wide {v₁ : α} (two : (kind v₁).words = 2) : wordCount kind [v₁] = 2 :=
  wordCount_eq_two.mpr (.inr ⟨v₁, rfl, two⟩)

/-- The order in which an instruction gives the values that it takes, the top first. -/
def Rearrangement.order (how : Rearrangement) (upper under : List α) : List α :=
  if how.duplicates then upper ++ under ++ upper else under ++ upper

/-- A form takes two numbers of words, and only depends on the instruction otherwise. -/
theorem rearranges_shuffle {how : Shuffle} {taken given : List α} :
    Rearranges kind (.shuffle how) taken given ↔ ∃ upper under,
      wordCount kind upper = (Rearrangement.ofShuffle how).top ∧
      wordCount kind under = (Rearrangement.ofShuffle how).under ∧
      taken = upper ++ under ∧ given = (Rearrangement.ofShuffle how).order upper under := by
  constructor
  · intro form
    cases form with
    | dup h₁ => exact ⟨[_], [], wordCount_single h₁, rfl, rfl, rfl⟩
    | dupX1 h₁ h₂ => exact ⟨[_], [_], wordCount_single h₁, wordCount_single h₂, rfl, rfl⟩
    | dupX2₁ h₁ h₂ h₃ => exact ⟨[_], [_, _], wordCount_single h₁, wordCount_pair h₂ h₃, rfl, rfl⟩
    | dupX2₂ h₁ h₂ => exact ⟨[_], [_], wordCount_single h₁, wordCount_wide h₂, rfl, rfl⟩
    | dup2₁ h₁ h₂ => exact ⟨[_, _], [], wordCount_pair h₁ h₂, rfl, rfl, rfl⟩
    | dup2₂ h₁ => exact ⟨[_], [], wordCount_wide h₁, rfl, rfl, rfl⟩
    | dup2X1₁ h₁ h₂ h₃ => exact ⟨[_, _], [_], wordCount_pair h₁ h₂, wordCount_single h₃, rfl, rfl⟩
    | dup2X1₂ h₁ h₂ => exact ⟨[_], [_], wordCount_wide h₁, wordCount_single h₂, rfl, rfl⟩
    | dup2X2₁ h₁ h₂ h₃ h₄ =>
      exact ⟨[_, _], [_, _], wordCount_pair h₁ h₂, wordCount_pair h₃ h₄, rfl, rfl⟩
    | dup2X2₂ h₁ h₂ h₃ => exact ⟨[_], [_, _], wordCount_wide h₁, wordCount_pair h₂ h₃, rfl, rfl⟩
    | dup2X2₃ h₁ h₂ h₃ => exact ⟨[_, _], [_], wordCount_pair h₁ h₂, wordCount_wide h₃, rfl, rfl⟩
    | dup2X2₄ h₁ h₂ => exact ⟨[_], [_], wordCount_wide h₁, wordCount_wide h₂, rfl, rfl⟩
    | swap h₁ h₂ => exact ⟨[_], [_], wordCount_single h₁, wordCount_single h₂, rfl, rfl⟩
  · rintro ⟨upper, under, top, below, rfl, rfl⟩
    cases how with
    | dup =>
      obtain ⟨v₁, rfl, h₁⟩ := wordCount_eq_one.mp top
      obtain rfl := wordCount_eq_zero.mp below
      exact .dup h₁
    | dupX1 =>
      obtain ⟨v₁, rfl, h₁⟩ := wordCount_eq_one.mp top
      obtain ⟨v₂, rfl, h₂⟩ := wordCount_eq_one.mp below
      exact .dupX1 h₁ h₂
    | dupX2 =>
      obtain ⟨v₁, rfl, h₁⟩ := wordCount_eq_one.mp top
      rcases wordCount_eq_two.mp below with ⟨v₂, v₃, rfl, h₂, h₃⟩ | ⟨v₂, rfl, h₂⟩
      · exact .dupX2₁ h₁ h₂ h₃
      · exact .dupX2₂ h₁ h₂
    | dup2 =>
      obtain rfl := wordCount_eq_zero.mp below
      rcases wordCount_eq_two.mp top with ⟨v₁, v₂, rfl, h₁, h₂⟩ | ⟨v₁, rfl, h₁⟩
      · exact .dup2₁ h₁ h₂
      · exact .dup2₂ h₁
    | dup2X1 =>
      obtain ⟨v₃, rfl, h₃⟩ := wordCount_eq_one.mp below
      rcases wordCount_eq_two.mp top with ⟨v₁, v₂, rfl, h₁, h₂⟩ | ⟨v₁, rfl, h₁⟩
      · exact .dup2X1₁ h₁ h₂ h₃
      · exact .dup2X1₂ h₁ h₃
    | dup2X2 =>
      rcases wordCount_eq_two.mp top with ⟨v₁, v₂, rfl, h₁, h₂⟩ | ⟨v₁, rfl, h₁⟩
      · rcases wordCount_eq_two.mp below with ⟨v₃, v₄, rfl, h₃, h₄⟩ | ⟨v₃, rfl, h₃⟩
        · exact .dup2X2₁ h₁ h₂ h₃ h₄
        · exact .dup2X2₃ h₁ h₂ h₃
      · rcases wordCount_eq_two.mp below with ⟨v₃, v₄, rfl, h₃, h₄⟩ | ⟨v₃, rfl, h₃⟩
        · exact .dup2X2₂ h₁ h₃ h₄
        · exact .dup2X2₄ h₁ h₃
    | swap =>
      obtain ⟨v₁, rfl, h₁⟩ := wordCount_eq_one.mp top
      obtain ⟨v₂, rfl, h₂⟩ := wordCount_eq_one.mp below
      exact .swap h₁ h₂

theorem rearranges_pop {taken given : List α} :
    Rearranges kind .pop taken given ↔ wordCount kind taken = 1 ∧ given = [] := by
  constructor
  · intro form
    cases form with
    | pop h₁ => exact ⟨wordCount_single h₁, rfl⟩
  · rintro ⟨one, rfl⟩
    obtain ⟨v₁, rfl, h₁⟩ := wordCount_eq_one.mp one
    exact .pop h₁

theorem rearranges_pop2 {taken given : List α} :
    Rearranges kind .pop2 taken given ↔ wordCount kind taken = 2 ∧ given = [] := by
  constructor
  · intro form
    cases form with
    | pop2₁ h₁ h₂ => exact ⟨wordCount_pair h₁ h₂, rfl⟩
    | pop2₂ h₁ => exact ⟨wordCount_wide h₁, rfl⟩
  · rintro ⟨two, rfl⟩
    rcases wordCount_eq_two.mp two with ⟨v₁, v₂, rfl, h₁, h₂⟩ | ⟨v₁, rfl, h₁⟩
    · exact .pop2₁ h₁ h₂
    · exact .pop2₂ h₁

end Forms

theorem wordCount_heldAbove (memory : Memory Other) (height : Nat) (kinds : Stack) :
    wordCount Prod.fst (heldAbove memory height kinds) = wordCount id kinds := by
  conv_rhs => rw [← map_fst_heldAbove memory height kinds]
  rw [wordCount, wordCount, List.map_map]
  rfl

/-! ## Taking values -/

/-- Values that make up the number of words are taken. -/
theorem popWords_of_wordCount {site : Site} {words : Nat} {taken after : Stack}
    (count : wordCount id taken = words) :
    popWords site words (taken ++ after) = .ok ((located after.length taken).reverse, after) := by
  fun_induction popWords site words generalizing taken after with
  | case1 =>
    obtain rfl := wordCount_eq_zero.mp count
    rfl
  | case2 =>
    obtain ⟨kind, rfl, one⟩ := wordCount_eq_one.mp count
    have narrow : ¬kind.isWide = true := not_isWide_of_words one
    refine bindState_eq_ok.mpr ⟨(kind, .stack kind after.length), after, rfl, ?_⟩
    dsimp only
    rw [if_neg narrow]
    rfl
  | case3 words ih1 ih2 =>
    cases taken with
    | nil => cases count
    | cons kind rest =>
      rw [wordCount_cons, id] at count
      refine bindState_eq_ok.mpr
        ⟨(kind, .stack kind (rest ++ after).length), rest ++ after, rfl, ?_⟩
      have place : located after.length (kind :: rest) =
          (kind, .stack kind (rest ++ after).length) :: located after.length rest := by
        rw [located, List.length_append, Nat.add_comm]
      rw [place, List.reverse_cons]
      dsimp only
      split
      next wide =>
        rw [words_of_isWide wide] at count
        exact bindState_eq_ok.mpr ⟨_, after, ih1 (by omega), rfl⟩
      next narrow =>
        rw [words_of_not_isWide narrow] at count
        exact bindState_eq_ok.mpr ⟨_, after, ih2 (by omega), rfl⟩

/-- Only values that make up the number of words are taken. -/
theorem exists_of_popWords {site : Site} {words : Nat} {stack after : Stack}
    {values : List (Kind × Variable)} (finished : popWords site words stack = .ok (values, after)) :
    ∃ taken, stack = taken ++ after ∧ wordCount id taken = words := by
  fun_induction popWords site words generalizing stack values after with
  | case1 =>
    cases finished
    exact ⟨[], rfl, rfl⟩
  | case2 =>
    obtain ⟨⟨kind, value⟩, rest, popped, ended⟩ := bindState_eq_ok.mp finished
    obtain ⟨rfl, _⟩ := popAny_eq_ok.mp popped
    dsimp only at ended
    split at ended
    next => cases ended
    next narrow =>
      cases ended
      exact ⟨[kind], rfl, wordCount_single (words_of_not_isWide narrow)⟩
  | case3 words ih1 ih2 =>
    obtain ⟨⟨kind, value⟩, rest, popped, ended⟩ := bindState_eq_ok.mp finished
    obtain ⟨rfl, _⟩ := popAny_eq_ok.mp popped
    dsimp only at ended
    split at ended
    next wide =>
      obtain ⟨below, rest', others, same⟩ := bindState_eq_ok.mp ended
      cases same
      obtain ⟨taken, rfl, count⟩ := ih1 others
      refine ⟨kind :: taken, rfl, ?_⟩
      rw [wordCount_cons, id, words_of_isWide wide, count, Nat.add_comm]
    next narrow =>
      obtain ⟨below, rest', others, same⟩ := bindState_eq_ok.mp ended
      cases same
      obtain ⟨taken, rfl, count⟩ := ih2 others
      refine ⟨kind :: taken, rfl, ?_⟩
      rw [wordCount_cons, id, words_of_not_isWide narrow, count]
      omega

/-! ## Giving values -/

theorem pushBack_eq (values : List (Kind × Variable)) (stack : Stack) :
    pushBack values stack = .ok ((), (values.map Prod.fst).reverse ++ stack) := by
  induction values generalizing stack with
  | nil => rfl
  | cons first rest ih =>
    rw [List.map_cons, List.reverse_cons, List.append_assoc]
    exact bindState_eq_ok.mpr ⟨_, first.1 :: stack, rfl, ih _⟩

/-- Copies of variables that do not lie above the stack are put on it one after the other. -/
theorem pushCopies_run (memory : Memory Other) {values : List (Kind × Variable)} {stack : Stack}
    (below : ∀ value ∈ values, IsBelow stack.length value.2) :
    ∃ copies memory',
      pushCopies values stack = .ok (copies, (values.map Prod.fst).reverse ++ stack) ∧
      Statement.executeAll memory copies = some memory' ∧
      held memory' ((values.map Prod.fst).reverse ++ stack) =
        (values.map (Prod.map id memory)).reverse ++ held memory stack ∧
      ∀ holder, IsBelow stack.length holder → memory' holder = memory holder := by
  induction values generalizing memory stack with
  | nil => exact ⟨[], memory, rfl, rfl, rfl, fun _ _ => rfl⟩
  | cons first rest ih =>
    obtain ⟨kind, source⟩ := first
    obtain ⟨here, there⟩ := List.forall_mem_cons.mp below
    -- The first copy goes above the stack, so it does not touch what is read later.
    let between := Function.update memory (.stack kind stack.length) (memory source)
    have kept {holder : Variable} (lower : IsBelow stack.length holder) :
        between holder = memory holder :=
      Function.update_of_ne (fun same => Nat.lt_irrefl _ (lower _ _ same)) ..
    have below' : ∀ value ∈ rest, IsBelow (kind :: stack).length value.2 :=
      fun value member => (there value member).mono (Nat.le_succ _)
    obtain ⟨copies, memory', pushed, ran, holds, same⟩ := ih between below'
    refine ⟨.assign (.stack kind stack.length) (.read source) :: copies, memory', ?_, ?_, ?_, ?_⟩
    · refine bindState_eq_ok.mpr ⟨_, kind :: stack, rfl, ?_⟩
      rw [List.map_cons, List.reverse_cons, List.append_assoc]
      exact bindState_eq_ok.mpr ⟨copies, _, pushed, rfl⟩
    · exact (Statement.executeAll_assign rfl copies).trans ran
    · have later : rest.map (Prod.map id between) = rest.map (Prod.map id memory) :=
        map_held_congr fun value member => kept (there value member)
      rw [List.map_cons, List.reverse_cons, List.append_assoc, List.map_cons, List.reverse_cons,
        List.append_assoc, ← later]
      exact holds.trans (congrArg _ (held_push memory kind (memory source) stack))
    · intro holder lower
      exact (same holder (lower.mono (Nat.le_succ _))).trans (kept lower)

/-- Values that are put aside are held by different temporaries, and nothing else changes. -/
theorem saves_run (memory : Memory Other) (values : List (Kind × Variable)) (first : Nat)
    (lasting : ∀ value ∈ values, ∀ number, value.2 ≠ .temporary number) :
    ∃ memory',
      Statement.executeAll memory ((values.zipIdx first).map fun ((_, value), number) =>
        .assign (.temporary number) (.read value)) = some memory' ∧
      ((values.zipIdx first).map fun ((kind, _), number) => (kind, Variable.temporary number)).map
        (Prod.map id memory') = values.map (Prod.map id memory) ∧
      ∀ holder, (∀ number, first ≤ number → holder ≠ .temporary number) →
        memory' holder = memory holder := by
  induction values generalizing memory first with
  | nil => exact ⟨memory, rfl, rfl, fun _ _ => rfl⟩
  | cons value rest ih =>
    obtain ⟨kind, source⟩ := value
    obtain ⟨here, there⟩ := List.forall_mem_cons.mp lasting
    let between := Function.update memory (.temporary first) (memory source)
    have kept {holder : Variable} (other : holder ≠ .temporary first) :
        between holder = memory holder := Function.update_of_ne other ..
    obtain ⟨memory', ran, saved, same⟩ := ih between (first + 1) there
    refine ⟨memory', ?_, ?_, ?_⟩
    · exact (Statement.executeAll_assign rfl _).trans ran
    · have later : rest.map (Prod.map id between) = rest.map (Prod.map id memory) :=
        map_held_congr fun value member => kept (there value member first)
      have head : memory' (.temporary first) = memory source := by
        rw [same _ fun number above => ?_]
        · exact Function.update_self ..
        · rintro ⟨⟩
          omega
      rw [List.zipIdx_cons, List.map_cons, List.map_cons, List.map_cons, saved, later]
      exact congrArg (fun value => (kind, value) :: _) head
    · intro holder other
      refine (same holder fun number above => other number ?_).trans
        (kept (other first (Nat.le_refl _)))
      omega

theorem setAside_run (memory : Memory Other) {values : List (Kind × Variable)}
    (lasting : ∀ value ∈ values, ∀ number, value.2 ≠ .temporary number) :
    ∃ memory', Statement.executeAll memory (setAside values).1 = some memory' ∧
      (setAside values).2.map (Prod.map id memory') = values.map (Prod.map id memory) ∧
      ∀ holder, (∀ number, holder ≠ .temporary number) →
        memory' holder = memory holder := by
  obtain ⟨memory', ran, saved, same⟩ := saves_run memory values 0 lasting
  exact ⟨memory', ran, saved, fun holder other => same holder fun number _ => other number⟩

/-! ## Instructions -/

/-- From a stack, a simulation leaves values in the variables of the stack after it.  Variables
are kept that are neither temporaries nor at a height of the stack or above. -/
def Simulation.Produces (simulation : Simulation Effect) (memory : Memory Other) (stack : Stack)
    (height : Nat) (values : List (Kind × Value Other)) : Prop :=
  ∃ statements memory',
    simulation stack = .ok (.plain statements, values.map Prod.fst) ∧
    Statement.executeAll memory statements = some memory' ∧
    held memory' (values.map Prod.fst) = values ∧
    ∀ holder, IsBelow height holder → (∀ number, holder ≠ .temporary number) →
      memory' holder = memory holder

section Instructions

variable (site : Site) (memory : Memory Other) {how : Rearrangement} {upper under below : Stack}

theorem map_fst_reverse_located (height : Nat) (kinds : Stack) :
    ((located height kinds).reverse.map Prod.fst).reverse = kinds := by
  rw [List.map_reverse, List.reverse_reverse, map_fst_located]

theorem map_reverse_located (height : Nat) (kinds : Stack) :
    ((located height kinds).reverse.map (Prod.map id memory)).reverse =
      heldAbove memory height kinds := by
  rw [List.map_reverse, List.reverse_reverse, heldAbove]

theorem isEmpty_reverse_located (height : Nat) (kinds : Stack) :
    (located height kinds).reverse.isEmpty = kinds.isEmpty := by
  cases kinds with
  | nil => rfl
  | cons kind rest => simp [located]

/-- Values that only get copied stay where they are. -/
theorem rearrange_copies (duplicates : how.duplicates = true)
    (top : wordCount id upper = how.top) (middle : how.under = 0) :
    (rearrange site how).Produces memory (upper ++ below) below.length
      (heldAbove memory below.length upper ++ held memory (upper ++ below)) := by
  have lower : ∀ value ∈ (located below.length upper).reverse,
      IsBelow (upper ++ below).length value.2 := by
    intro value member
    rw [List.length_append, Nat.add_comm]
    exact isBelow_of_mem_located (List.mem_reverse.mp member)
  obtain ⟨copies, memory', pushed, ran, holds, same⟩ := pushCopies_run memory lower
  rw [map_fst_reverse_located] at pushed holds
  rw [map_reverse_located] at holds
  rw [Simulation.Produces, List.map_append, map_fst_heldAbove, map_fst_held]
  refine ⟨copies, memory', ?_, ran, holds, fun holder lower _ => same holder (lower.mono ?_)⟩
  · refine bindState_eq_ok.mpr ⟨_, below, popWords_of_wordCount top, ?_⟩
    refine bindState_eq_ok.mpr ⟨[], below, by rw [middle]; rfl, ?_⟩
    dsimp only
    rw [if_pos (by simp [duplicates])]
    refine bindState_eq_ok.mpr ⟨(), upper ++ below, ?_, ?_⟩
    · rw [pushBack_eq, map_fst_reverse_located]
    · exact bindState_eq_ok.mpr ⟨copies, _, pushed, rfl⟩
  · rw [List.length_append]
    exact Nat.le_add_left ..

/-- The values that were put aside, in the order in which they are put back. -/
def reordered (how : Rearrangement) (count : Nat) (saved : List (Kind × Variable)) :
    List (Kind × Variable) :=
  if how.duplicates then saved.drop count ++ saved.take count ++ saved.drop count
  else saved.drop count ++ saved.take count

/-- Values that are put back end up in the order of the instruction. -/
theorem reverse_map_reordered {saved : List (Kind × Variable)} {lower higher : List α}
    {change : Kind × Variable → α} (whole : saved.map change = lower ++ higher) {count : Nat}
    (length : count = lower.length) :
    ((reordered how count saved).map change).reverse = how.order higher.reverse lower.reverse := by
  have first : (saved.take count).map change = lower := by
    rw [List.map_take, whole, length, List.take_left]
  have rest : (saved.drop count).map change = higher := by
    rw [List.map_drop, whole, length, List.drop_left]
  rw [reordered, Rearrangement.order]
  split <;> simp only [List.map_append, List.reverse_append, first, rest, List.append_assoc]

/-- Values that are put aside can be put back in another order. -/
theorem rearrange_saved (top : wordCount id upper = how.top)
    (middle : wordCount id under = how.under)
    (moves : ¬(under.isEmpty && how.duplicates) = true) :
    (rearrange site how).Produces memory (upper ++ (under ++ below)) below.length
      (how.order (heldAbove memory (under ++ below).length upper)
        (heldAbove memory below.length under) ++ held memory below) := by
  let lower := (located below.length under).reverse
  let higher := (located (under ++ below).length upper).reverse
  have lasting : ∀ value ∈ lower ++ higher, ∀ number, value.2 ≠ .temporary number := by
    intro value member
    rcases List.mem_append.mp member with here | here <;>
      exact not_temporary_of_mem_located (List.mem_reverse.mp here)
  obtain ⟨between, saves, saved, kept⟩ := setAside_run memory lasting
  have aside : ∀ value ∈ reordered how lower.length (setAside (lower ++ higher)).2,
      IsBelow below.length value.2 := by
    intro value member
    obtain ⟨⟨_, number⟩, _, rfl⟩ := List.mem_map.mp (mem_of_mem_reordered member)
    exact isBelow_temporary _ number
  obtain ⟨copies, memory', pushed, ran, holds, same⟩ := pushCopies_run between aside
  -- The copies read from the temporaries what the variables of the stack held before.
  have given : ((reordered how lower.length (setAside (lower ++ higher)).2).map
      (Prod.map id between)).reverse =
        how.order (heldAbove memory (under ++ below).length upper)
          (heldAbove memory below.length under) := by
    rw [List.map_append] at saved
    rw [reverse_map_reordered saved (List.length_map ..).symm, map_reverse_located,
      map_reverse_located]
  have kinds : ((reordered how lower.length (setAside (lower ++ higher)).2).map
      Prod.fst).reverse =
        (how.order (heldAbove memory (under ++ below).length upper)
          (heldAbove memory below.length under)).map Prod.fst := by
    rw [← given, List.map_reverse, List.map_map]
    rfl
  have old : held between below = held memory below := held_congr fun _ _ _ => kept _ nofun
  rw [given, old] at holds
  rw [kinds] at pushed holds
  rw [Simulation.Produces, List.map_append, map_fst_held]
  refine ⟨(setAside (lower ++ higher)).1 ++ copies, memory', ?_,
    (Statement.executeAll_append saves).trans ran, holds, fun holder lower other => ?_⟩
  · refine bindState_eq_ok.mpr ⟨higher, under ++ below, popWords_of_wordCount top, ?_⟩
    refine bindState_eq_ok.mpr ⟨lower, below, popWords_of_wordCount middle, ?_⟩
    dsimp only
    rw [if_neg (by rwa [isEmpty_reverse_located])]
    exact bindState_eq_ok.mpr ⟨copies, _, pushed, rfl⟩
  · exact (same holder lower).trans (kept holder other)

/-- What an instruction gives for values of two numbers of words from the top. -/
theorem rearrange_produces (top : wordCount id upper = how.top)
    (middle : wordCount id under = how.under) :
    (rearrange site how).Produces memory (upper ++ (under ++ below)) below.length
      (how.order (heldAbove memory (under ++ below).length upper)
        (heldAbove memory below.length under) ++ held memory below) := by
  by_cases copies : (under.isEmpty && how.duplicates) = true
  · obtain ⟨none, duplicates⟩ := Bool.and_eq_true_iff.mp copies
    obtain rfl := List.isEmpty_iff.mp none
    have twice : (rearrange site how).Produces memory (upper ++ below) below.length
        (heldAbove memory below.length upper ++ held memory (upper ++ below)) :=
      rearrange_copies site memory duplicates top middle.symm
    rw [held_append, ← List.append_assoc] at twice
    rw [Rearrangement.order, if_pos duplicates]
    simpa [heldAbove, located] using twice
  · exact rearrange_saved site memory top middle copies

/-- Values that are dropped leave the others as they are. -/
theorem produces_of_plain_nil {simulation : Simulation Effect} {stack : Stack}
    (finished : simulation stack = .ok (.plain [], below)) :
    simulation.Produces memory stack below.length (held memory below) := by
  rw [Simulation.Produces, map_fst_held]
  exact ⟨[], memory, finished, rfl, rfl, fun _ _ _ => rfl⟩

theorem dropOne_eq (one : wordCount id upper = 1) :
    dropOne site (upper ++ below) = .ok (.plain [], below) := by
  obtain ⟨kind, rfl, one⟩ := wordCount_eq_one.mp one
  have narrow : ¬kind.isWide = true := not_isWide_of_words one
  refine bindState_eq_ok.mpr ⟨(kind, .stack kind below.length), below, rfl, ?_⟩
  dsimp only
  rw [if_neg narrow]
  rfl

theorem dropTwo_eq (two : wordCount id upper = 2) :
    dropTwo site (upper ++ below) = .ok (.plain [], below) :=
  bindState_eq_ok.mpr ⟨_, below, popWords_of_wordCount two, rfl⟩

theorem exists_of_dropOne {site : Site} {stack after : Stack} {effect : Effect}
    (finished : dropOne site stack = .ok (effect, after)) :
    ∃ taken, stack = taken ++ after ∧ wordCount id taken = 1 := by
  obtain ⟨⟨kind, value⟩, rest, popped, ended⟩ := bindState_eq_ok.mp finished
  obtain ⟨rfl, _⟩ := popAny_eq_ok.mp popped
  dsimp only at ended
  split at ended
  next => cases ended
  next narrow =>
    cases ended
    exact ⟨[kind], rfl, wordCount_single (words_of_not_isWide narrow)⟩

theorem exists_of_dropTwo {site : Site} {stack after : Stack} {effect : Effect}
    (finished : dropTwo site stack = .ok (effect, after)) :
    ∃ taken, stack = taken ++ after ∧ wordCount id taken = 2 := by
  obtain ⟨values, rest, popped, ended⟩ := bindState_eq_ok.mp finished
  cases ended
  exact exists_of_popWords popped

theorem exists_of_rearrange {site : Site} {stack after : Stack} {effect : Effect}
    (finished : rearrange site how stack = .ok (effect, after)) :
    ∃ upper under below, stack = upper ++ (under ++ below) ∧ wordCount id upper = how.top ∧
      wordCount id under = how.under := by
  obtain ⟨top, between, popped, ended⟩ := bindState_eq_ok.mp finished
  obtain ⟨under, below, popped', _⟩ := bindState_eq_ok.mp ended
  obtain ⟨upper, rfl, count⟩ := exists_of_popWords popped
  obtain ⟨under, rfl, count'⟩ := exists_of_popWords popped'
  exact ⟨upper, under, below, rfl, count, count'⟩

/-- Values on top of the stack are the values of kinds on top of it. -/
theorem exists_of_held_eq_append {stack : Stack} {first second : List (Kind × Value Other)}
    (whole : held memory stack = first ++ second) :
    ∃ kinds rest, stack = kinds ++ rest ∧ first = heldAbove memory rest.length kinds ∧
      second = held memory rest := by
  have kinds : stack = first.map Prod.fst ++ second.map Prod.fst := by
    rw [← List.map_append, ← whole, map_fst_held]
  rw [kinds, held_append] at whole
  have length : (heldAbove memory (second.map Prod.fst).length (first.map Prod.fst)).length =
      first.length := by
    rw [← List.length_map Prod.fst, map_fst_heldAbove, List.length_map]
  obtain ⟨here, there⟩ := List.append_inj whole length
  exact ⟨_, _, kinds, here.symm, there.symm⟩

/-- An instruction is only translated if one of its forms fits. -/
theorem exists_rearranges {site : Site} {instruction : Instruction}
    (rearranging : IsRearranging instruction) {stack : Stack} {result : Effect × Stack}
    (finished : translate site instruction stack = .ok result) :
    ∃ taken given below, stack = taken ++ below ∧ Rearranges id instruction taken given := by
  cases instruction with
  | pop =>
    obtain ⟨taken, whole, one⟩ := exists_of_dropOne finished
    exact ⟨taken, [], _, whole, rearranges_pop.mpr ⟨one, rfl⟩⟩
  | pop2 =>
    obtain ⟨taken, whole, two⟩ := exists_of_dropTwo finished
    exact ⟨taken, [], _, whole, rearranges_pop2.mpr ⟨two, rfl⟩⟩
  | shuffle how =>
    obtain ⟨upper, under, below, rfl, top, middle⟩ := exists_of_rearrange finished
    exact ⟨upper ++ under, _, below, (List.append_assoc ..).symm,
      rearranges_shuffle.mpr ⟨upper, under, top, middle, rfl, rfl⟩⟩
  | _ => exact rearranging.elim

/-- Wherever a form fits, an instruction is translated. -/
theorem exists_translate {instruction : Instruction} {taken given : Stack}
    (form : Rearranges id instruction taken given) :
    ∃ result, translate site instruction (taken ++ below) = .ok result := by
  cases instruction with
  | pop => exact ⟨_, dropOne_eq site (rearranges_pop.mp form).1⟩
  | pop2 => exact ⟨_, dropTwo_eq site (rearranges_pop2.mp form).1⟩
  | shuffle how =>
    obtain ⟨upper, under, top, middle, rfl, _⟩ := rearranges_shuffle.mp form
    rw [List.append_assoc]
    obtain ⟨statements, _, made, _⟩ :=
      rearrange_produces site (fun _ => .other ()) top middle
    exact ⟨_, made⟩
  | _ => nomatch form

/-- Wherever a form fits, an instruction gives what the form says. -/
theorem produces_of_rearranges {instruction : Instruction} {stack : Stack}
    {taken given rest : List (Kind × Value Other)} (whole : held memory stack = taken ++ rest)
    (form : Rearranges Prod.fst instruction taken given) :
    (translate site instruction).Produces memory stack rest.length (given ++ rest) := by
  have length (below : Stack) : (held memory below).length = below.length := by
    rw [← List.length_map Prod.fst, map_fst_held]
  cases instruction with
  | pop =>
    obtain ⟨one, rfl⟩ := rearranges_pop.mp form
    obtain ⟨kinds, below, rfl, rfl, rfl⟩ := exists_of_held_eq_append memory whole
    rw [wordCount_heldAbove] at one
    rw [length]
    exact produces_of_plain_nil memory (dropOne_eq site one)
  | pop2 =>
    obtain ⟨two, rfl⟩ := rearranges_pop2.mp form
    obtain ⟨kinds, below, rfl, rfl, rfl⟩ := exists_of_held_eq_append memory whole
    rw [wordCount_heldAbove] at two
    rw [length]
    exact produces_of_plain_nil memory (dropTwo_eq site two)
  | shuffle how =>
    obtain ⟨upper, under, top, middle, rfl, rfl⟩ := rearranges_shuffle.mp form
    rw [List.append_assoc] at whole
    obtain ⟨kinds, between, rfl, rfl, others⟩ := exists_of_held_eq_append memory whole
    obtain ⟨kinds', below, rfl, rfl, rfl⟩ := exists_of_held_eq_append memory others.symm
    rw [wordCount_heldAbove] at top middle
    rw [length]
    exact rearrange_produces site memory top middle
  | _ => nomatch form

/-- **Values are moved as the machine specifies.**  An instruction is translated exactly if one of
its forms fits the kinds on top of the stack.  Then, whatever the variables hold, the assignments
leave in the variables of the new stack what the form gives, and keep the values below. -/
theorem translate_rearranges {instruction : Instruction} (rearranging : IsRearranging instruction)
    (stack : Stack) :
    ((∃ result, translate site instruction stack = .ok result) ↔
      ∃ taken given below, stack = taken ++ below ∧ Rearranges id instruction taken given) ∧
    ∀ {Other : Type} (memory : Memory Other) (taken given rest : List (Kind × Value Other)),
      held memory stack = taken ++ rest → Rearranges Prod.fst instruction taken given →
        (translate site instruction).Produces memory stack rest.length (given ++ rest) := by
  refine ⟨⟨?_, ?_⟩, fun memory _ _ _ whole form => produces_of_rearranges site memory whole form⟩
  · rintro ⟨result, finished⟩
    exact exists_rearranges rearranging finished
  · rintro ⟨taken, given, below, rfl, form⟩
    exact exists_translate site form

end Instructions

/-- Where a method begins that copies two words. -/
def copying : Site where
  classes := .empty
  owner := ⟨"Lone"⟩
  method := "run"
  offset := 0
  opcode := 0x5e
  next := 1

/-- Two narrow values are copied below a wide one.  Each variable holds its own name before. -/
theorem translate_dup2X2_rearranges :
    IsRearranging (.shuffle .dup2X2) ∧
    (∃ result, translate copying (.shuffle .dup2X2) [.int, .reference, .double, .float] =
      .ok result) ∧
    (translate copying (.shuffle .dup2X2)).Produces Value.other
      [.int, .reference, .double, .float] 1
      [(.int, .other (.stack .int 3)), (.reference, .other (.stack .reference 2)),
        (.double, .other (.stack .double 1)), (.int, .other (.stack .int 3)),
        (.reference, .other (.stack .reference 2)), (.float, .other (.stack .float 0))] := by
  obtain ⟨succeeds, produces⟩ := translate_rearranges copying
    (show IsRearranging (.shuffle .dup2X2) from trivial) [.int, .reference, .double, .float]
  refine ⟨trivial, succeeds.mpr ⟨_, _, [.float], rfl, .dup2X2₃ rfl rfl rfl⟩, ?_⟩
  exact produces Value.other _ _ [(.float, .other (.stack .float 0))] rfl (.dup2X2₃ rfl rfl rfl)

end Bytescript.Translation
