import Bytescript.Proofs.Program.Missing

/-!
# The files that a search asks for

A search looks up the names that it takes and that are not provided, one after the other.  What it
comes to only depends on the files of these.  A search that ends has asked for finitely many, so it
makes no difference that a loader has a limited number of files: wherever they are looked up, there
is a loader with some of the files for which the search comes to the same.
-/

set_option autoImplicit false

namespace Bytescript

namespace Loader

variable {lookup : Lookup} {names : List ClassName} {name : ClassName}

/-- Whether there is a file, readable or not. -/
def isThere : Except Failure (Option (List UInt8)) → Bool
  | .ok none => false
  | _ => true

/-- The files that are found for some names. -/
def ofNames (lookup : Lookup) (names : List ClassName) : Loader where
  files := names.map fun name => (lookup name).map (·.getD [])
  find name :=
    if isThere (lookup name) then (names.finIdxOf? name).map (Fin.cast (by simp)) else none

theorem map_getD_of_isThere {found : Except Failure (Option (List UInt8))}
    (here : isThere found = true) : (found.map (·.getD [])).map some = found := by
  match found with
  | .error _ => rfl
  | .ok (some _) => rfl

theorem load_ofNames (listed : name ∈ names) : (ofNames lookup names).load name = lookup name := by
  by_cases here : isThere (lookup name) = true
  · obtain ⟨index, first⟩ := Option.ne_none_iff_exists'.mp
      (mt List.finIdxOf?_eq_none_iff.mp (not_not_intro listed))
    have named : names[(index : Nat)] = name := (List.finIdxOf?_eq_some_iff.mp first).1
    simpa [load, ofNames, here, first, named] using map_getD_of_isThere here
  · have missing : lookup name = .ok none := by
      cases found : lookup name with
      | error => exact absurd (found ▸ rfl) here
      | ok bytes =>
        cases bytes with
        | none => rfl
        | some => exact absurd (found ▸ rfl) here
    simp [load, ofNames, missing, isThere]

theorem load_ofNames_eq_or (lookup : Lookup) (names : List ClassName) (name : ClassName) :
    (ofNames lookup names).load name = lookup name ∨
      (ofNames lookup names).load name = .ok none := by
  by_cases listed : name ∈ names
  · exact .inl (load_ofNames listed)
  · have missing : names.finIdxOf? name = none := List.finIdxOf?_eq_none_iff.mpr listed
    exact .inr (by simp [load, ofNames, missing])

end Loader

namespace Reachability

variable {lookup lookup' : Lookup} {entries provided : List ClassName}

namespace Search

/-- The names whose files a run looks up. -/
def asked (lookup : Lookup) (provided : List ClassName) : (fuel : Nat) → Search → List ClassName
  | 0, _ => []
  | fuel + 1, search =>
    match search.waiting with
    | [] => []
    | discovery :: rest =>
      let later := match visit lookup provided discovery { search with waiting := rest } with
        | .ok next => asked lookup provided fuel next
        | .error _ => []
      if discovery.name ∈ provided then later else discovery.name :: later

theorem visit_congr {discovery : Discovery} {search : Search}
    (same : discovery.name ∉ provided → lookup' discovery.name = lookup discovery.name) :
    visit lookup' provided discovery search = visit lookup provided discovery search := by
  rw [visit, visit]
  split
  next => rfl
  next missing =>
    rw [loadClass, loadClass, same fun listed => missing (List.contains_iff_mem.mpr listed)]

/-- A run only depends on the files that it looks up. -/
theorem run_congr {fuel : Nat} {search : Search}
    (same : ∀ name ∈ asked lookup provided fuel search, lookup' name = lookup name) :
    run lookup' provided fuel search = run lookup provided fuel search := by
  induction fuel generalizing search with
  | zero => rfl
  | succ fuel ih =>
    rw [asked] at same
    rw [run, run]
    split
    next => rfl
    next discovery rest waits =>
      simp only [waits] at same
      have here : discovery.name ∉ provided → lookup' discovery.name = lookup discovery.name :=
        fun missing => same _ (by rw [if_neg missing]; exact List.mem_cons_self)
      rw [visit_congr here]
      refine bind_congr_ok fun next visited => ih fun name later => same name ?_
      rw [visited]
      split
      · exact later
      · exact List.mem_cons_of_mem _ later

end Search

/-- The result, or the failure, only depends on the files that are asked for. -/
theorem closeOver_congr {loader loader' : Loader}
    (same : ∀ fuel, ∀ name ∈ Search.asked loader.load provided fuel (.start entries),
      loader'.load name = loader.load name) :
    closeOver entries loader' provided = closeOver entries loader provided := by
  have runs (fuel : Nat) := Search.run_congr (same fuel)
  cases closed : closeOver entries loader provided with
  | ok reach =>
    obtain ⟨fuel, search, ran, ended⟩ := closeOver_eq_ok.mp closed
    exact closeOver_eq_ok.mpr ⟨fuel, search, (runs fuel).trans ran, ended⟩
  | error failure =>
    obtain ⟨fuel, failed⟩ := closeOver_eq_error.mp closed
    exact closeOver_eq_error.mpr ⟨fuel, (runs fuel).trans failed⟩

/-- A search that finds a closure finds it with a loader that has some of the files. -/
theorem Finds.exists_loader {reach : Reachability} (finds : Finds lookup entries provided reach) :
    ∃ loader : Loader, closeOver entries loader provided = .ok reach ∧
      ∀ name, loader.load name = lookup name ∨ loader.load name = .ok none := by
  obtain ⟨fuel, search, ran, ended⟩ := finds
  refine ⟨.ofNames lookup (Search.asked lookup provided fuel (.start entries)),
    closeOver_eq_ok.mpr ⟨fuel, search, ?_, ended⟩, Loader.load_ofNames_eq_or lookup _⟩
  rw [Search.run_congr fun _ => Loader.load_ofNames, ran]

/-- A search that fails fails with a loader that has some of the files. -/
theorem Fails.exists_loader {failure : Failure} (fails : Fails lookup entries provided failure) :
    ∃ loader : Loader, closeOver entries loader provided = .error failure ∧
      ∀ name, loader.load name = lookup name ∨ loader.load name = .ok none := by
  obtain ⟨fuel, ran⟩ := fails
  refine ⟨.ofNames lookup (Search.asked lookup provided fuel (.start entries)),
    closeOver_eq_error.mpr ⟨fuel, ?_⟩, Loader.load_ofNames_eq_or lookup _⟩
  rw [Search.run_congr fun _ => Loader.load_ofNames, ran]

end Reachability

end Bytescript
