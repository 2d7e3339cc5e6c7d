import Bytescript.Proofs.Execution.Moves
import Bytescript.Proofs.Failure
import Mathlib.Data.List.Find

/-!
# Groups of cases

The cases of a switch are grouped by the blocks that they lead to.  Every block has one group, the
groups stand in the order in which their blocks are first named, and a group lists exactly the keys
that lead to its block.  So running the grouped cases leads to the block that the switch names.
-/

set_option autoImplicit false

namespace Bytescript.Translation.CaseGroup

open Script Execution

variable {key : Int32} {target default : Nat} {groups : List CaseGroup}

/-! ## Adding a case -/

theorem map_target_insert : (insert key target groups).map CaseGroup.target =
    if target ∈ groups.map CaseGroup.target then groups.map CaseGroup.target
    else groups.map CaseGroup.target ++ [target] := by
  fun_induction insert key target groups with
  | case1 => rfl
  | case2 group rest same => simp [same]
  | case3 group rest different ih =>
    rw [List.map_cons, ih]
    have other : ¬ target = group.target := Ne.symm different
    split <;> simp_all

theorem map_target_insertDefault : (insertDefault target groups).map CaseGroup.target =
    if target ∈ groups.map CaseGroup.target then groups.map CaseGroup.target
    else groups.map CaseGroup.target ++ [target] := by
  fun_induction insertDefault target groups with
  | case1 => rfl
  | case2 group rest same => simp [same]
  | case3 group rest different ih =>
    rw [List.map_cons, ih]
    have other : ¬ target = group.target := Ne.symm different
    split <;> simp_all

/-- A group after a case was added: an old one of another target, or the one of this target. -/
theorem mem_insert {group : CaseGroup} (distinct : (groups.map CaseGroup.target).Nodup)
    (member : group ∈ insert key target groups) :
    (group ∈ groups ∧ group.target ≠ target) ∨
      (∃ old ∈ groups, old.target = target ∧ group = { old with keys := old.keys ++ [key] }) ∨
      (target ∉ groups.map CaseGroup.target ∧ group = ⟨target, [key], false⟩) := by
  fun_induction insert key target groups with
  | case1 => exact .inr (.inr ⟨by simp, List.mem_singleton.mp member⟩)
  | case2 first rest same =>
    rcases List.mem_cons.mp member with rfl | member
    · exact .inr (.inl ⟨first, List.mem_cons_self, same, rfl⟩)
    · refine .inl ⟨.tail _ member, fun again => ?_⟩
      exact (List.nodup_cons.mp distinct).1 (same ▸ again ▸ List.mem_map_of_mem member)
  | case3 first rest different ih =>
    rcases List.mem_cons.mp member with rfl | member
    · exact .inl ⟨List.mem_cons_self, different⟩
    · rcases ih (List.nodup_cons.mp distinct).2 member with ⟨old, other⟩ | ⟨old, here, rest⟩ | new
      · exact .inl ⟨.tail _ old, other⟩
      · exact .inr (.inl ⟨old, .tail _ here, rest⟩)
      · refine .inr (.inr ⟨?_, new.2⟩)
        rw [List.map_cons, List.mem_cons]
        exact fun found => found.elim (fun same => different same.symm) new.1

/-! ## All cases -/

/-- The groups of cases. -/
structure Group (cases : List (Int32 × Nat)) (groups : List CaseGroup) : Prop where
  distinct : (groups.map CaseGroup.target).Nodup
  /-- The targets stand in the order in which they are first named. -/
  order : ∀ wanted : Nat → Bool,
    (groups.map CaseGroup.target).find? wanted = (cases.map Prod.snd).find? wanted
  keys : ∀ group ∈ groups, ∀ key, key ∈ group.keys ↔ (key, group.target) ∈ cases
  plain : ∀ group ∈ groups, group.isDefault = false

theorem find?_add {targets : List Nat} (wanted : Nat → Bool) :
    (if target ∈ targets then targets else targets ++ [target]).find? wanted =
      (targets.find? wanted).or ([target].find? wanted) := by
  split
  next member =>
    cases found : targets.find? wanted with
    | some other => rfl
    | none => simpa using List.find?_eq_none.mp found target member
  next => rw [List.find?_append]

theorem Group.mem_targets {cases : List (Int32 × Nat)} (grouped : Group cases groups) :
    target ∈ groups.map CaseGroup.target ↔ target ∈ cases.map Prod.snd := by
  have found (targets : List Nat) :
      (targets.find? fun other => other = target).isSome = true ↔ target ∈ targets := by simp
  rw [← found, ← found, grouped.order]

theorem nodup_add {targets : List Nat} (distinct : targets.Nodup) :
    (if target ∈ targets then targets else targets ++ [target]).Nodup := by
  split
  · exact distinct
  next new => exact List.nodup_append.mpr ⟨distinct, List.nodup_singleton _, by
      rintro one member _ only rfl
      exact new (List.mem_singleton.mp only ▸ member)⟩

theorem Group.insert {cases : List (Int32 × Nat)} (grouped : Group cases groups) :
    Group (cases ++ [(key, target)]) (insert key target groups) where
  distinct := map_target_insert ▸ nodup_add grouped.distinct
  order wanted := by
    rw [map_target_insert, find?_add, grouped.order, List.map_append, List.find?_append]
    rfl
  keys group member other := by
    rcases mem_insert grouped.distinct member with
      ⟨old, apart⟩ | ⟨old, here, same, rfl⟩ | ⟨new, rfl⟩
    · rw [grouped.keys group old, List.mem_append]
      simp [apart]
    · rw [List.mem_append, List.mem_append, grouped.keys old here, same]
      simp
    · rw [grouped.mem_targets] at new
      have absent : (other, target) ∉ cases := fun listed =>
        new (List.mem_map_of_mem (f := Prod.snd) listed)
      simp [absent]
  plain group member := by
    rcases mem_insert grouped.distinct member with ⟨old, _⟩ | ⟨old, here, _, rfl⟩ | ⟨_, rfl⟩
    · exact grouped.plain group old
    · exact grouped.plain old here
    · rfl

theorem Group.foldl {cases more : List (Int32 × Nat)} (grouped : Group cases groups) :
    Group (cases ++ more)
      (more.foldl (fun groups (key, target) => CaseGroup.insert key target groups) groups) := by
  induction more generalizing cases groups with
  | nil => rwa [List.append_nil]
  | cons first more ih =>
    rw [List.append_cons]
    exact ih grouped.insert

theorem group_cases (cases : List (Int32 × Nat)) :
    Group cases (cases.foldl (fun groups (key, target) => insert key target groups) []) :=
  have none : Group [] [] := ⟨.nil, fun _ => rfl, by simp, by simp⟩
  none.foldl

/-! ## The default -/

/-- Marking the default changes nothing about the keys. -/
theorem find?_insertDefault_key :
    ((insertDefault target groups).find? fun group => key ∈ group.keys).map CaseGroup.target =
      (groups.find? fun group => key ∈ group.keys).map CaseGroup.target := by
  fun_induction insertDefault target groups with
  | case1 => rfl
  | case2 group rest same =>
    by_cases listed : key ∈ group.keys
    · simp [listed]
    · simp [listed]
  | case3 group rest different ih =>
    by_cases listed : key ∈ group.keys
    · simp [listed]
    · simpa [listed] using ih

theorem find?_insertDefault_isDefault (plain : ∀ group ∈ groups, group.isDefault = false) :
    ((insertDefault target groups).find? CaseGroup.isDefault).map CaseGroup.target =
      some target := by
  fun_induction insertDefault target groups with
  | case1 => rfl
  | case2 group rest same => simp [same]
  | case3 group rest different ih =>
    obtain ⟨here, plain⟩ := List.forall_mem_cons.mp plain
    simpa [here] using ih plain

/-- A key leads to the group of the first target that it is listed with. -/
theorem find?_ofCases_key (cases : List (Int32 × Nat)) (default : Nat) (key : Int32) :
    ((ofCases cases default).find? fun group => key ∈ group.keys).map CaseGroup.target =
      (cases.find? fun (_, target) => (key, target) ∈ cases).map Prod.snd := by
  have grouped := group_cases cases
  rw [ofCases, find?_insertDefault_key]
  revert grouped
  generalize cases.foldl _ [] = groups
  intro grouped
  have order := grouped.order fun target => (key, target) ∈ cases
  rw [List.find?_map, List.find?_map] at order
  refine Eq.trans (congrArg (Option.map CaseGroup.target) ?_) order
  apply List.find?_congr
  intro group member
  exact decide_eq_decide.mpr (grouped.keys group member key)

theorem find?_ofCases_default (cases : List (Int32 × Nat)) (default : Nat) :
    ((ofCases cases default).find? CaseGroup.isDefault).map CaseGroup.target = some default :=
  find?_insertDefault_isDefault (group_cases cases).plain

/-- Every target has one group. -/
theorem nodup_ofCases (cases : List (Int32 × Nat)) (default : Nat) :
    ((ofCases cases default).map CaseGroup.target).Nodup :=
  map_target_insertDefault ▸ nodup_add (group_cases cases).distinct

theorem mem_ofCases {cases : List (Int32 × Nat)} :
    target ∈ (ofCases cases default).map CaseGroup.target ↔
      target ∈ cases.map Prod.snd ++ [default] := by
  rw [ofCases, map_target_insertDefault, List.mem_append, ← (group_cases cases).mem_targets]
  split
  next member =>
    refine ⟨.inl, fun either => either.elim id fun same => ?_⟩
    exact List.mem_singleton.mp same ▸ member
  next => exact List.mem_append

/-! ## The code of groups -/

section Code

variable {jump : Jump} {code : Cases}

theorem exists_casesOf (jumps : ∀ group ∈ groups, ∃ body, jump group.target = .ok body) :
    ∃ code, casesOf jump groups = .ok code := by
  induction groups with
  | nil => exact ⟨.nil, rfl⟩
  | cons group rest ih =>
    obtain ⟨body, here⟩ := jumps group List.mem_cons_self
    obtain ⟨behind, there⟩ := ih fun other member => jumps other (.tail _ member)
    exact ⟨.cons group.keys group.isDefault body behind,
      bind_eq_ok.mpr ⟨body, here, bind_eq_ok.mpr ⟨behind, there, rfl⟩⟩⟩

/-- The case for a listed key jumps to the target of the first group with the key. -/
theorem selectListed_casesOf (key : Int32) (made : casesOf jump groups = .ok code) :
    match groups.find? fun group => key ∈ group.keys with
    | some group => ∃ body behind,
        selectListed key code = some (body, behind) ∧ jump group.target = .ok body
    | none => selectListed key code = none := by
  induction groups generalizing code with
  | nil =>
    cases made
    rfl
  | cons group rest ih =>
    obtain ⟨body, here, made⟩ := bind_eq_ok.mp made
    obtain ⟨behind, there, made⟩ := bind_eq_ok.mp made
    cases made
    rw [List.find?_cons, selectListed]
    by_cases listed : key ∈ group.keys
    · rw [decide_eq_true listed, if_pos listed]
      exact ⟨body, behind, rfl, here⟩
    · rw [decide_eq_false listed, if_neg listed]
      exact ih there

/-- The case for all other keys jumps to the target of the group that is the default. -/
theorem selectDefault_casesOf (made : casesOf jump groups = .ok code) :
    match groups.find? CaseGroup.isDefault with
    | some group => ∃ body behind,
        selectDefault code = some (body, behind) ∧ jump group.target = .ok body
    | none => selectDefault code = none := by
  induction groups generalizing code with
  | nil =>
    cases made
    rfl
  | cons group rest ih =>
    obtain ⟨body, here, made⟩ := bind_eq_ok.mp made
    obtain ⟨behind, there, made⟩ := bind_eq_ok.mp made
    cases made
    rw [List.find?_cons, selectDefault]
    cases default : group.isDefault with
    | true => exact ⟨body, behind, rfl, here⟩
    | false => exact ih there

/-- A switch over grouped cases jumps to its target for every key. -/
theorem selectCase_casesOf {cases : List (Int32 × Nat)}
    (made : casesOf jump (ofCases cases default) = .ok code) (key : Int32) :
    ∃ body behind, selectCase key code = some (body, behind) ∧
      jump (switchTarget cases default key) = .ok body := by
  have listed := selectListed_casesOf key made
  have target := find?_ofCases_key cases default key
  rw [switchTarget, ← target, selectCase]
  split at listed
  next group found =>
    obtain ⟨body, behind, selected, jumps⟩ := listed
    rw [found, selected]
    exact ⟨body, behind, rfl, jumps⟩
  next missing =>
    have last := selectDefault_casesOf made
    have target := find?_ofCases_default cases default
    rw [missing, listed]
    split at last
    next group found =>
      obtain ⟨body, behind, selected, jumps⟩ := last
      rw [found] at target
      rw [selected]
      exact ⟨body, behind, rfl, Option.some.inj target ▸ jumps⟩
    next missing =>
      rw [missing] at target
      cases target

end Code

end Bytescript.Translation.CaseGroup
