import Mathlib.Data.List.Nodup
import Mathlib.Data.List.Induction

/-!
# Lists without repetitions

An item stays in a list where it occurs first, and every later occurrence is left out.  An item that
occurs once in a list tells where a part of the list that contains it stands.
-/

set_option autoImplicit false

namespace Bytescript

variable {α : Type} [DecidableEq α]

theorem eraseDups_append_singleton (list : List α) (item : α) :
    (list ++ [item]).eraseDups =
      if item ∈ list then list.eraseDups else list.eraseDups ++ [item] := by
  rw [List.eraseDups_append]
  by_cases known : item ∈ list <;> simp [List.removeAll, known, List.eraseDups_cons]

theorem nodup_eraseDups (list : List α) : list.eraseDups.Nodup := by
  induction list using List.reverseRecOn with
  | nil => simp
  | append_singleton list item ih =>
    rw [eraseDups_append_singleton]
    split
    · exact ih
    next new =>
      refine List.nodup_append.mpr ⟨ih, List.nodup_singleton item, fun one here other last => ?_⟩
      rintro rfl
      exact new (List.mem_eraseDups.mp (List.mem_singleton.mp last ▸ here))

/-- A list without repetitions stays as it is. -/
theorem eraseDups_eq_self {list : List α} (distinct : list.Nodup) : list.eraseDups = list := by
  induction list using List.reverseRecOn with
  | nil => rfl
  | append_singleton list item ih =>
    obtain ⟨before, _, apart⟩ := List.nodup_append.mp distinct
    have new : item ∉ list := fun here => apart item here item (List.mem_singleton_self item) rfl
    rw [eraseDups_append_singleton, if_neg new, ih before]

theorem eraseDups_sublist (list : List α) : list.eraseDups.Sublist list := by
  induction list using List.reverseRecOn with
  | nil => exact List.Sublist.refl []
  | append_singleton list item ih =>
    rw [eraseDups_append_singleton]
    split
    · exact ih.trans (List.sublist_append_left list [item])
    · exact ih.append (List.Sublist.refl [item])

/-- If nothing is lost, there were no repetitions. -/
theorem length_eraseDups_eq_iff {list : List α} :
    list.eraseDups.length = list.length ↔ list.Nodup := by
  constructor
  · intro same
    rw [← (eraseDups_sublist list).eq_of_length same]
    exact nodup_eraseDups list
  · intro distinct
    rw [eraseDups_eq_self distinct]

/-- It does not matter whether items are left out before or after their repetitions. -/
theorem filter_eraseDups (keeps : α → Bool) (list : List α) :
    list.eraseDups.filter keeps = (list.filter keeps).eraseDups := by
  induction list using List.reverseRecOn with
  | nil => rfl
  | append_singleton list item ih =>
    rw [eraseDups_append_singleton, List.filter_append, List.filter_singleton]
    by_cases kept : keeps item = true
    · rw [kept, cond_true, eraseDups_append_singleton, ← ih]
      by_cases known : item ∈ list <;> simp [known, kept]
    · rw [Bool.not_eq_true] at kept
      rw [kept, cond_false, List.append_nil, ← ih]
      split <;> simp [kept]

/-- A part of a list stands at one place only if an item of it occurs once in the whole list. -/
theorem existsUnique_append {whole part : List α} {item : α} (within : part <:+: whole)
    (member : item ∈ part) (once : whole.count item = 1) :
    ∃! split : List α × List α, whole = split.1 ++ part ++ split.2 := by
  obtain ⟨before, after, rfl⟩ := List.append_of_mem member
  have located {front back : List α} (same : whole = front ++ (before ++ item :: after) ++ back) :
      whole = (front ++ before) ++ item :: (after ++ back) := by
    simp [same]
  obtain ⟨front, back, same⟩ := within
  refine ⟨(front, back), same.symm, ?_⟩
  rintro ⟨front', back'⟩ same'
  -- Around the place where the item is found it does not occur.
  have here := located same.symm
  have apart := once
  rw [here, List.count_append, List.count_cons_self] at apart
  obtain ⟨fronts, _, backs⟩ := (List.append_cons_inj_of_notMem
    (List.count_eq_zero.mp (by omega)) (List.count_eq_zero.mp (by omega))).mp
      (here.symm.trans (located same'))
  rw [List.append_cancel_right fronts, List.append_cancel_left backs]

end Bytescript
