import Bytescript.Failure
import Mathlib.Data.List.Forall2

/-!
# Computations that may fail

A computation in several steps gives a result exactly if each step does.  These facts take such a
computation apart, so that no later proof has to look into how failures are passed on.
-/

set_option autoImplicit false

namespace Bytescript

variable {ε α β : Type}

theorem bind_eq_ok {first : Except ε α} {next : α → Except ε β} {result : β} :
    (first >>= next) = .ok result ↔ ∃ middle, first = .ok middle ∧ next middle = .ok result := by
  cases first with
  | error failure => simp [bind, Except.bind]
  | ok middle => simp [bind, Except.bind]

/-- The second step need only be the same for what the first one gives. -/
theorem bind_congr_ok {first : Except ε α} {next other : α → Except ε β}
    (same : ∀ middle, first = .ok middle → next middle = other middle) :
    (first >>= next) = (first >>= other) := by
  cases first with
  | error failure => rfl
  | ok middle => exact same middle rfl

/-- A first step that only checks something. -/
theorem check_eq_ok {first : Except ε Unit} {next : Unit → Except ε β} {result : β} :
    (first >>= next) = .ok result ↔ first = .ok () ∧ next () = .ok result :=
  bind_eq_ok.trans ⟨fun ⟨_, here, there⟩ => ⟨here, there⟩, fun ⟨here, there⟩ => ⟨(), here, there⟩⟩

/-- With a state, the second step begins where the first one ended. -/
theorem bindState_eq_ok {σ : Type} {first : StateT σ (Except ε) α}
    {next : α → StateT σ (Except ε) β} {state : σ} {result : β × σ} :
    (first >>= next) state = .ok result ↔
      ∃ middle between, first state = .ok (middle, between) ∧
        next middle between = .ok result := by
  refine bind_eq_ok.trans ?_
  exact ⟨fun ⟨⟨middle, between⟩, both⟩ => ⟨middle, between, both⟩,
    fun ⟨middle, between, both⟩ => ⟨(middle, between), both⟩⟩

/-- Something fails if one of its steps does, after the steps before it. -/
theorem bind_eq_error {first : Except ε α} {next : α → Except ε β} {failure : ε} :
    (first >>= next) = .error failure ↔
      first = .error failure ∨ ∃ middle, first = .ok middle ∧ next middle = .error failure := by
  cases first with
  | error failure => simp [bind, Except.bind]
  | ok middle => simp [bind, Except.bind]

theorem map_eq_ok {first : Except ε α} {change : α → β} {result : β} :
    first.map change = .ok result ↔ ∃ middle, first = .ok middle ∧ change middle = result := by
  cases first with
  | error failure => simp [Except.map]
  | ok middle => simp [Except.map]

theorem map_eq_error {first : Except ε α} {change : α → β} {failure : ε} :
    first.map change = .error failure ↔ first = .error failure := by
  cases first <;> simp [Except.map]

theorem ok_of_toOption {computation : Except ε α} {result : α}
    (computed : computation.toOption = some result) : computation = .ok result := by
  cases computation with
  | error failure => cases computed
  | ok other => exact congrArg Except.ok (Option.some.inj computed)

theorem during_eq_ok {activity : Activity} {computation : Except Failure α} {result : α} :
    during activity computation = .ok result ↔ computation = .ok result := by
  cases computation <;> simp [during]

/-- Steps over a list that give nothing. -/
theorem forM_eq_ok {check : α → Except ε Unit} {list : List α} :
    list.forM check = .ok () ↔ ∀ item ∈ list, check item = .ok () := by
  induction list with
  | nil => simp [pure, Except.pure]
  | cons item rest ih =>
    rw [List.forM_eq_forM, List.forM_cons, List.forall_mem_cons, check_eq_ok, ← ih,
      List.forM_eq_forM]

/-- A computation over a list gives the list of its results. -/
theorem mapM_eq_ok {compute : α → Except ε β} {list : List α} {results : List β} :
    list.mapM compute = .ok results ↔
      List.Forall₂ (fun item result => compute item = .ok result) list results := by
  induction list generalizing results with
  | nil => simp [pure, Except.pure, eq_comm]
  | cons item rest ih =>
    rw [List.mapM_cons, bind_eq_ok]
    constructor
    · rintro ⟨first, here, later⟩
      obtain ⟨others, there, same⟩ := bind_eq_ok.mp later
      cases same
      exact .cons here (ih.mp there)
    · intro related
      cases related with
      | cons here there => exact ⟨_, here, bind_eq_ok.mpr ⟨_, ih.mpr there, rfl⟩⟩

/-- Everything in the second of two related lists is related to something in the first. -/
theorem exists_of_forall₂_right {related : α → β → Prop} {list : List α}
    {list' : List β} (lists : List.Forall₂ related list list') {other : β}
    (member : other ∈ list') : ∃ one ∈ list, related one other := by
  induction lists with
  | nil => cases member
  | @cons one _ rest _ here _ ih =>
    rcases List.mem_cons.mp member with rfl | later
    · exact ⟨one, List.mem_cons_self, here⟩
    · obtain ⟨found, listed, there⟩ := ih later
      exact ⟨found, .tail _ listed, there⟩

/-- Everything in the first of two related lists is related to something in the second. -/
theorem exists_of_forall₂_left {related : α → β → Prop} {list : List α}
    {list' : List β} (lists : List.Forall₂ related list list') {one : α}
    (member : one ∈ list) : ∃ other ∈ list', related one other :=
  exists_of_forall₂_right lists.flip member

/-- If everything is related to something that changes into the result, there is a list of it. -/
theorem exists_of_forall₂_map {γ : Type} {related : α → β → Prop} {change : β → γ}
    {list : List α} {results : List γ}
    (lists : List.Forall₂ (fun one result => ∃ other, related one other ∧ change other = result)
      list results) :
    ∃ others, List.Forall₂ related list others ∧ others.map change = results := by
  induction lists with
  | nil => exact ⟨[], .nil, rfl⟩
  | cons here _ ih =>
    obtain ⟨other, first, rfl⟩ := here
    obtain ⟨others, rest, rfl⟩ := ih
    exact ⟨other :: others, .cons first rest, rfl⟩

/-- Each place of a list decides the same place of the results. -/
theorem getElem?_of_mapM_eq_ok {compute : α → Except ε β} {list : List α} {results : List β}
    (computed : list.mapM compute = .ok results) {position : Nat} {item : α}
    (here : list[position]? = some item) :
    ∃ result, results[position]? = some result ∧ compute item = .ok result := by
  have related := mapM_eq_ok.mp computed
  clear computed
  induction related generalizing position with
  | nil => simp at here
  | cons first _ ih =>
    cases position with
    | zero =>
      cases here
      exact ⟨_, rfl, first⟩
    | succ position => exact ih here

theorem length_of_mapM_eq_ok {compute : α → Except ε β} {list : List α} {results : List β}
    (computed : list.mapM compute = .ok results) : results.length = list.length :=
  (mapM_eq_ok.mp computed).length_eq.symm

theorem exists_of_forM_eq_error {check : α → Except ε Unit} {list : List α} {failure : ε}
    (failed : list.forM check = .error failure) : ∃ item ∈ list, check item = .error failure := by
  induction list with
  | nil => cases failed
  | cons item rest ih =>
    rw [List.forM_eq_forM, List.forM_cons] at failed
    rcases bind_eq_error.mp failed with here | ⟨_, _, later⟩
    · exact ⟨item, List.mem_cons_self, here⟩
    · obtain ⟨other, listed, there⟩ := ih later
      exact ⟨other, .tail _ listed, there⟩

theorem exists_of_mapM_eq_error {compute : α → Except ε β} {list : List α} {failure : ε}
    (failed : list.mapM compute = .error failure) :
    ∃ item ∈ list, compute item = .error failure := by
  induction list with
  | nil => cases failed
  | cons item rest ih =>
    rw [List.mapM_cons] at failed
    rcases bind_eq_error.mp failed with here | ⟨_, _, later⟩
    · exact ⟨item, List.mem_cons_self, here⟩
    · rcases bind_eq_error.mp later with there | ⟨_, _, done⟩
      · obtain ⟨other, listed, there⟩ := ih there
        exact ⟨other, .tail _ listed, there⟩
      · cases done

/-- A computation over a list fails only where it fails for an item. -/
theorem exists_mapM_eq_ok {compute : α → Except ε β} {list : List α}
    (each : ∀ item ∈ list, ∃ result, compute item = .ok result) :
    ∃ results, list.mapM compute = .ok results := by
  induction list with
  | nil => exact ⟨[], rfl⟩
  | cons item rest ih =>
    obtain ⟨first, here⟩ := each item List.mem_cons_self
    obtain ⟨others, there⟩ := ih fun other member => each other (.tail _ member)
    exact ⟨first :: others, mapM_eq_ok.mpr (.cons here (mapM_eq_ok.mp there))⟩

end Bytescript
