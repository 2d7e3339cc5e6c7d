import Bytescript.Assembly.Sketch
import Bytescript.Proofs.Distinct
import Bytescript.Proofs.Program.Needs
import Mathlib.Data.Fintype.Card
import Mathlib.Data.Fintype.Option
import Mathlib.Data.List.Perm.Subperm

/-!
# The closure of the entry classes

The search takes the names that wait one after the other, in the order in which they were found, so
what it took so far is always the beginning of a walk that is breadth first.  When no name waits any
more, what was taken is the closure of the entries.

A search is given by where the files are looked up and by a bound on its steps.  For a loader, which
has a limited number of files, the bound that is used is always enough.
-/

set_option autoImplicit false

namespace Bytescript

/-- A class of a new name comes last. -/
theorem ClassTable.files_insert_of_notMem {table : ClassTable} {file : ClassFile}
    (new : file.name ∉ table.names) : (table.insert file).files = table.files ++ [file] := by
  have append (files : List ClassFile) (new : file.name ∉ files.map ClassFile.name) :
      ClassTable.insertFile file files = files ++ [file] := by
    induction files with
    | nil => rfl
    | cons other rest ih =>
      rw [List.map_cons, List.mem_cons, not_or] at new
      rw [ClassTable.insertFile, if_neg fun same => new.1 same.symm, ih new.2]
      rfl
  exact append table.files new

/-! ## Steps of the search -/

namespace Reachability

variable {lookup : Lookup} {entries provided : List ClassName}

namespace Search

variable {search next : Search} {taken : List ClassName} {expansions : List (List ClassName)}

/-- The names that were taken and those that wait are some names in the order in which they first
come up, and no other names were found. -/
def Lists (search : Search) (taken names : List ClassName) : Prop :=
  (∀ name, name ∈ search.found ↔ name ∈ names) ∧
    taken ++ search.waiting.map Discovery.name = names.eraseDups

theorem Lists.discover {names : List ClassName} (lists : search.Lists taken names)
    (origin : Option ClassName) (name : ClassName) :
    (search.discover origin name).Lists taken (names ++ [name]) := by
  obtain ⟨found, order⟩ := lists
  rw [Lists, eraseDups_append_singleton, Search.discover]
  by_cases known : name ∈ names
  · rw [if_pos (List.contains_iff_mem.mpr ((found name).mpr known)), if_pos known]
    refine ⟨fun other => ?_, order⟩
    rw [found other, List.mem_append, List.mem_singleton]
    exact ⟨.inl, fun either => either.elim id fun same => same ▸ known⟩
  · rw [if_neg ((found name).not.mpr known ∘ List.contains_iff_mem.mp), if_neg known]
    refine ⟨fun other => ?_, ?_⟩
    · rw [List.mem_cons, found other, List.mem_append, List.mem_singleton, or_comm]
    · rw [List.map_append, ← List.append_assoc, order]
      rfl

theorem Lists.foldl_discover {names : List ClassName} (origin : Option ClassName)
    (more : List ClassName) (lists : search.Lists taken names) :
    (more.foldl (Search.discover origin) search).Lists taken (names ++ more) := by
  induction more generalizing search names with
  | nil => simpa using lists
  | cons name more ih => simpa using ih (lists.discover origin name)

theorem result_foldl_discover (origin : Option ClassName) (more : List ClassName)
    (search : Search) : (more.foldl (Search.discover origin) search).result = search.result := by
  have step (search : Search) (name : ClassName) :
      (search.discover origin name).result = search.result := by
    rw [Search.discover]
    split <;> rfl
  induction more generalizing search with
  | nil => rfl
  | cons name more ih => exact (ih _).trans (step search name)

/-- What a visit of a name does: a provided name is only recorded, and for another one its class is
kept and what that refers to is found. -/
inductive Visits (lookup : Lookup) (provided : List ClassName) (discovery : Discovery)
    (search : Search) : List ClassName → Search → Prop where
  | provided (here : discovery.name ∈ provided) :
    Visits lookup provided discovery search []
      { search with
        result.provided := search.result.provided ++ [discovery.name] }
  | loaded {file : ClassFile} {references : List ClassName} (missing : discovery.name ∉ provided)
    (loads : Loads lookup discovery.name file) (collected : file.references = .ok references) :
    Visits lookup provided discovery search references
      { references.foldl (Search.discover (some discovery.name)) search with
        result := { search.result with classes := search.result.classes.insert file } }

theorem visit_eq_ok {discovery : Discovery} :
    Search.visit lookup provided discovery search = .ok next ↔
      ∃ references, Visits lookup provided discovery search references next := by
  rw [Search.visit]
  split
  next here =>
    constructor
    · intro visited
      cases visited
      exact ⟨[], .provided (List.contains_iff_mem.mp here)⟩
    · rintro ⟨_, visits⟩
      cases visits with
      | provided => rfl
      | loaded missing => exact absurd (List.contains_iff_mem.mp here) missing
  next missing =>
    rw [List.contains_iff_mem] at missing
    simp only [bind_eq_ok, loadClass_eq_ok, during_eq_ok]
    constructor
    · rintro ⟨file, loads, references, collected, same⟩
      cases same
      exact ⟨references, .loaded missing loads collected⟩
    · rintro ⟨_, visits⟩
      cases visits with
      | provided here => exact absurd here missing
      | loaded _ loads collected => exact ⟨_, loads, _, collected, rfl⟩

theorem Visits.expands {discovery : Discovery} {references : List ClassName}
    (visits : Visits lookup provided discovery search references next) :
    Expands lookup provided discovery.name references := by
  cases visits with
  | provided here => exact .provided here
  | loaded missing loads collected => exact .loaded missing loads collected

/-- A visit finds the references. -/
theorem Visits.lists {discovery : Discovery} {references names : List ClassName}
    (visits : Visits lookup provided discovery search references next)
    (lists : search.Lists taken names) : next.Lists taken (names ++ references) := by
  cases visits with
  | provided => simpa using! lists
  | loaded => exact lists.foldl_discover (some discovery.name) references

/-- What holds while the search goes on. -/
structure Sound (lookup : Lookup) (entries provided : List ClassName) (search : Search)
    (taken : List ClassName) (expansions : List (List ClassName)) : Prop where
  lists : search.Lists taken (entries ++ expansions.flatten)
  expanded : List.Forall₂ (Expands lookup provided) taken expansions
  arises : ∀ front name rest, taken = front ++ name :: rest →
    Arises lookup entries provided front name
  classes : search.result.classes.names = taken.filter (· ∉ provided)
  provided : search.result.provided = taken.filter (· ∈ provided)
  loaded : ∀ file ∈ search.result.classes.files, Loads lookup file.name file

theorem sound_start (lookup : Lookup) (entries provided : List ClassName) :
    (Search.start entries).Sound lookup entries provided [] [] := by
  have fresh : (Search.start entries).result = ⟨.empty, []⟩ := result_foldl_discover ..
  have empty : Lists ⟨[], [], ⟨.empty, []⟩⟩ [] [] := ⟨by simp, rfl⟩
  exact {
    lists := by simpa using! empty.foldl_discover none entries
    expanded := .nil
    arises := by simp
    classes := by rw [fresh]; rfl
    provided := by rw [fresh]; rfl
    loaded := by rw [fresh]; simp [ClassTable.empty] }

/-- Every name that waits is an entry, or a name that was taken leads to it. -/
theorem Sound.arises_waiting (sound : search.Sound lookup entries provided taken expansions)
    {discovery : Discovery} (waits : discovery ∈ search.waiting) :
    Arises lookup entries provided taken discovery.name := by
  have listed : discovery.name ∈ entries ++ expansions.flatten := by
    rw [← List.mem_eraseDups, ← sound.lists.2]
    exact List.mem_append_right _ (List.mem_map_of_mem waits)
  refine (List.mem_append.mp listed).imp_right fun later => ?_
  obtain ⟨references, here, listed⟩ := List.mem_flatten.mp later
  obtain ⟨other, took, expands⟩ := exists_of_forall₂_right sound.expanded here
  exact ⟨other, took, references, expands, listed⟩

/-- What is taken next was not taken before. -/
theorem Sound.nodup (sound : search.Sound lookup entries provided taken expansions) :
    (taken ++ search.waiting.map Discovery.name).Nodup :=
  sound.lists.2 ▸ nodup_eraseDups _

/-- A name that waits can be taken if it is provided, or if its class and all references of that
are there. -/
theorem exists_visit {references : List ClassName} {discovery : Discovery}
    (expands : Expands lookup provided discovery.name references) (search : Search) :
    ∃ next, Search.visit lookup provided discovery search = .ok next := by
  cases expands with
  | provided here => exact ⟨_, visit_eq_ok.mpr ⟨_, .provided here⟩⟩
  | loaded missing loads collected =>
    exact ⟨_, visit_eq_ok.mpr ⟨_, .loaded missing loads collected⟩⟩

/-- The name that is taken next arises like those before it. -/
theorem Sound.arises_next (sound : search.Sound lookup entries provided taken expansions)
    {discovery : Discovery} {rest : List Discovery} (waits : search.waiting = discovery :: rest) :
    ∀ front name more, taken ++ [discovery.name] = front ++ name :: more →
      Arises lookup entries provided front name := by
  intro front name more whole
  rcases List.eq_nil_or_concat more with rfl | ⟨more, last, rfl⟩
  · obtain ⟨rfl, same⟩ := List.append_inj' whole rfl
    cases same
    exact sound.arises_waiting (waits ▸ List.mem_cons_self)
  · rw [List.concat_eq_append, ← List.cons_append, ← List.append_assoc] at whole
    exact sound.arises front name more (List.append_inj' whole rfl).1

/-- The class of a name that waits is a new one. -/
theorem Sound.notMem_classes (sound : search.Sound lookup entries provided taken expansions)
    {discovery : Discovery} {rest : List Discovery} (waits : search.waiting = discovery :: rest) :
    discovery.name ∉ search.result.classes.names := by
  rw [sound.classes]
  intro again
  have before := (List.mem_filter.mp again).1
  have distinct := sound.nodup
  rw [waits] at distinct
  exact (List.nodup_append.mp distinct).2.2 _ before _ List.mem_cons_self rfl

/-- Taking the next name. -/
theorem Sound.visit (sound : search.Sound lookup entries provided taken expansions)
    {discovery : Discovery} {rest : List Discovery} (waits : search.waiting = discovery :: rest)
    (visited : Search.visit lookup provided discovery { search with waiting := rest } = .ok next) :
    ∃ references, next.Sound lookup entries provided (taken ++ [discovery.name])
      (expansions ++ [references]) := by
  obtain ⟨references, visits⟩ := visit_eq_ok.mp visited
  have lists : Lists { search with waiting := rest } (taken ++ [discovery.name])
      (entries ++ expansions.flatten) := by
    refine ⟨sound.lists.1, ?_⟩
    rw [← sound.lists.2, waits, List.append_assoc]
    rfl
  have lists' : next.Lists (taken ++ [discovery.name])
      (entries ++ (expansions ++ [references]).flatten) := by
    simpa using visits.lists lists
  have expanded := List.rel_append sound.expanded (.cons visits.expands .nil)
  have new := sound.notMem_classes waits
  refine ⟨references, ?_⟩
  cases visits with
  | provided here =>
    exact {
      lists := lists'
      expanded
      arises := sound.arises_next waits
      classes := by simpa [here] using sound.classes
      provided := by simpa [here] using sound.provided
      loaded := sound.loaded }
  | @loaded file _ missing loads =>
    have named := loads.name_eq
    have files := ClassTable.files_insert_of_notMem (named ▸ new)
    exact {
      lists := lists'
      expanded
      arises := sound.arises_next waits
      classes := by
        rw [ClassTable.names, files, List.map_append, ← ClassTable.names, sound.classes]
        simp [named, missing]
      provided := by simpa [missing] using sound.provided
      loaded := by
        show ∀ other ∈ (search.result.classes.insert file).files, _
        rw [files]
        exact List.forall_mem_append.mpr
          ⟨sound.loaded, List.forall_mem_singleton.mpr (named ▸ loads)⟩ }

/-! ## Runs -/

/-- A run takes as many names as there are steps, unless no name waits any more. -/
theorem Sound.run {fuel : Nat} (sound : search.Sound lookup entries provided taken expansions)
    (ran : Search.run lookup provided fuel search = .ok next) :
    ∃ taken' expansions', next.Sound lookup entries provided taken' expansions' ∧
      (next.waiting = [] ∨ taken'.length = taken.length + fuel) := by
  induction fuel generalizing search taken expansions with
  | zero =>
    cases ran
    exact ⟨taken, expansions, sound, .inr rfl⟩
  | succ fuel ih =>
    rw [Search.run] at ran
    split at ran
    next done =>
      cases ran
      exact ⟨taken, expansions, sound, .inl done⟩
    next discovery rest waits =>
      obtain ⟨middle, visited, ran⟩ := bind_eq_ok.mp ran
      obtain ⟨references, sound'⟩ := sound.visit waits visited
      obtain ⟨taken', expansions', sound'', ended⟩ := ih sound' ran
      refine ⟨taken', expansions', sound'', ended.imp_right fun length => ?_⟩
      rw [length, List.length_append, List.length_singleton, Nat.add_assoc, Nat.add_comm 1]

theorem run_of_waiting_nil (done : search.waiting = []) (fuel : Nat) :
    Search.run lookup provided fuel search = .ok search := by
  cases fuel with
  | zero => rfl
  | succ fuel => rw [Search.run, done]

/-- A run can be cut into two. -/
theorem run_add (lookup : Lookup) (provided : List ClassName) (first second : Nat)
    (search : Search) : Search.run lookup provided (first + second) search =
      (Search.run lookup provided first search >>= Search.run lookup provided second) := by
  induction first generalizing search with
  | zero => rw [Nat.zero_add]; rfl
  | succ first ih =>
    rw [Nat.add_right_comm, Search.run, Search.run]
    split
    next done => exact (run_of_waiting_nil done second).symm
    next discovery rest waits =>
      cases visited : Search.visit lookup provided discovery { search with waiting := rest } with
      | error failure => rfl
      | ok next => exact ih next

/-- Everything that was found belongs to any closed set. -/
theorem Sound.mem_of_isClosed (sound : search.Sound lookup entries provided taken expansions)
    {names : Set ClassName} (closed : IsClosed lookup entries provided names) :
    (∀ name ∈ taken, name ∈ names) ∧ ∀ discovery ∈ search.waiting, discovery.name ∈ names := by
  have took := mem_of_arises sound.arises closed
  exact ⟨took, fun discovery waits => (sound.arises_waiting waits).mem_of_isClosed closed took⟩

/-- If everything in a closed set can be taken, a run does not fail. -/
theorem Sound.exists_run {names : Set ClassName}
    (closed : IsClosed lookup entries provided names)
    (each : ∀ name ∈ names, ∃ references, Expands lookup provided name references) (fuel : Nat)
    (sound : search.Sound lookup entries provided taken expansions) :
    ∃ next, Search.run lookup provided fuel search = .ok next := by
  induction fuel generalizing search taken expansions with
  | zero => exact ⟨search, rfl⟩
  | succ fuel ih =>
    rw [Search.run]
    split
    next => exact ⟨search, rfl⟩
    next discovery rest waits =>
      have needed := (sound.mem_of_isClosed closed).2 discovery (waits ▸ List.mem_cons_self)
      obtain ⟨references, expands⟩ := each _ needed
      obtain ⟨middle, visited⟩ := exists_visit expands { search with waiting := rest }
      obtain ⟨_, sound'⟩ := sound.visit waits visited
      obtain ⟨next, ran⟩ := ih sound'
      exact ⟨next, bind_eq_ok.mpr ⟨middle, visited, ran⟩⟩

/-- When no name waits any more, everything that was taken is the closure of the entries. -/
theorem Sound.isClosure (sound : search.Sound lookup entries provided taken expansions)
    (done : search.waiting = []) : IsClosure lookup entries provided search.result := by
  have whole : taken = (entries ++ expansions.flatten).eraseDups := by
    simpa [done] using sound.lists.2
  have members (name : ClassName) :
      name ∈ search.result.classes.names ∨ name ∈ search.result.provided ↔ name ∈ taken := by
    rw [sound.classes, sound.provided]
    by_cases here : name ∈ provided <;> simp [here]
  have distinct : taken.Nodup := whole ▸ nodup_eraseDups _
  have closed : IsClosed lookup entries provided {name | name ∈ taken} := by
    constructor
    · intro name entered
      show name ∈ taken
      rw [whole, List.mem_eraseDups]
      exact List.mem_append_left _ entered
    · intro name took missing file loads other refers
      show other ∈ taken
      rw [whole, List.mem_eraseDups]
      obtain ⟨references, listed, expands⟩ := exists_of_forall₂_left sound.expanded took
      exact List.mem_append_right _
        (List.mem_flatten.mpr ⟨references, listed, expands.mem_of_refersTo missing loads refers⟩)
  exact {
    least := by
      simp only [members]
      exact ⟨closed, fun names closed' => mem_of_arises sound.arises closed'⟩
    provided_mem := by simp [sound.provided]
    classes_notMem := by simp [sound.classes]
    once := by
      rw [sound.classes, sound.provided]
      refine List.nodup_append.mpr ⟨distinct.filter _, distinct.filter _, ?_⟩
      rintro name missing other here rfl
      exact of_decide_eq_true (List.mem_filter.mp missing).2
        (of_decide_eq_true (List.mem_filter.mp here).2)
    loaded := sound.loaded
    walk := ⟨taken, ⟨⟨expansions, sound.expanded, whole⟩, sound.arises⟩, sound.classes,
      sound.provided⟩ }

/-- Different classes have different files, so there cannot be more of them than files. -/
theorem length_le_size {loader : Loader} {names : List ClassName} (distinct : names.Nodup)
    (loads : ∀ name ∈ names, ∃ file, Loads loader.load name file) :
    names.length ≤ loader.size := by
  have located {name : ClassName} {file : ClassFile} (loads : Loads loader.load name file) :
      ∃ index, loader.find name = some index := by
    obtain ⟨bytes, found, _⟩ := loads
    rw [Loader.load] at found
    split at found
    · cases found
    next index here => exact ⟨index, here⟩
  have apart : (names.map loader.find).Nodup := by
    refine distinct.map_on fun one here other there same => ?_
    obtain ⟨file, bytes, found, parsed, named⟩ := loads one here
    obtain ⟨file', bytes', found', parsed', named'⟩ := loads other there
    rw [Loader.load, same] at found
    cases found.symm.trans found'
    cases parsed.symm.trans parsed'
    exact named.symm.trans named'
  have missing : none ∉ names.map loader.find := by
    rw [List.mem_map]
    rintro ⟨name, here, none⟩
    obtain ⟨file, loads⟩ := loads name here
    obtain ⟨index, some⟩ := located loads
    cases none.symm.trans some
  have bound := (List.nodup_cons.mpr ⟨missing, apart⟩).length_le_card
  simpa [Loader.size] using bound

/-- A search in a loader has taken less than the bound on its steps. -/
theorem Sound.length_le {loader : Loader}
    (sound : search.Sound loader.load entries provided taken expansions) :
    taken.length ≤ provided.length + loader.size := by
  have distinct : taken.Nodup := (List.nodup_append.mp sound.nodup).1
  have recorded : (taken.filter (· ∈ provided)).length ≤ provided.length := by
    refine (List.subperm_of_subset (distinct.filter _) fun name here => ?_).length_le
    exact of_decide_eq_true (List.mem_filter.mp here).2
  have loaded : (taken.filter (· ∉ provided)).length ≤ loader.size := by
    refine length_le_size (distinct.filter _) fun name missing => ?_
    rw [← sound.classes] at missing
    obtain ⟨file, here, rfl⟩ := List.mem_map.mp missing
    exact ⟨file, sound.loaded file here⟩
  have parts := List.length_eq_length_filter_add (l := taken) (· ∈ provided)
  simp only [← decide_not] at parts
  omega

end Search

/-! ## Whole searches -/

/-- A search that starts at some entries ends with a result. -/
def Finds (lookup : Lookup) (entries provided : List ClassName) (reach : Reachability) : Prop :=
  ∃ fuel search, Search.run lookup provided fuel (.start entries) = .ok search ∧
    search.waiting = [] ∧ search.result = reach

theorem Finds.isClosure {reach : Reachability} (finds : Finds lookup entries provided reach) :
    IsClosure lookup entries provided reach := by
  obtain ⟨fuel, search, ran, done, rfl⟩ := finds
  obtain ⟨taken, expansions, sound, _⟩ := (Search.sound_start lookup entries provided).run ran
  exact sound.isClosure done

/-- If everything in a finite closed set can be taken, the search ends with a result. -/
theorem exists_finds {names : List ClassName}
    (closed : IsClosed lookup entries provided {name | name ∈ names})
    (each : ∀ name ∈ names, ∃ references, Expands lookup provided name references) :
    ∃ reach, Finds lookup entries provided reach := by
  have start := Search.sound_start lookup entries provided
  obtain ⟨search, ran⟩ := start.exists_run closed each (names.length + 1)
  obtain ⟨taken, expansions, sound, ended⟩ := start.run ran
  have distinct : taken.Nodup := (List.nodup_append.mp sound.nodup).1
  have bound : taken.length ≤ names.length :=
    (List.subperm_of_subset distinct (sound.mem_of_isClosed closed).1).length_le
  refine ⟨search.result, _, search, ran, ended.resolve_right fun length => ?_, rfl⟩
  rw [List.length_nil] at length
  omega

/-- More steps than are needed change nothing. -/
theorem run_eq_of_le {fuel bound : Nat} {search search' : Search}
    (ran : Search.run lookup provided fuel search = .ok search') (done : search'.waiting = [])
    (enough : fuel ≤ bound) : Search.run lookup provided bound search = .ok search' := by
  obtain ⟨more, rfl⟩ := Nat.exists_eq_add_of_le enough
  rw [Search.run_add, ran]
  exact Search.run_of_waiting_nil done more

/-- For a loader, the bound on the steps is enough: a search ends with a result within the bound or
not at all. -/
theorem closeOver_eq_ok {loader : Loader} {reach : Reachability} :
    closeOver entries loader provided = .ok reach ↔ Finds loader.load entries provided reach := by
  have ends {search : Search} (ran : Search.run loader.load provided
      (provided.length + loader.size + 1) (.start entries) = .ok search) :
      search.waiting = [] := by
    obtain ⟨taken, expansions, sound, ended⟩ :=
      (Search.sound_start loader.load entries provided).run ran
    refine ended.resolve_right fun length => ?_
    have bound := sound.length_le
    rw [List.length_nil] at length
    omega
  rw [closeOver, map_eq_ok]
  constructor
  · rintro ⟨search, ran, rfl⟩
    exact ⟨_, search, ran, ends ran, rfl⟩
  · rintro ⟨fuel, search, ran, done, rfl⟩
    rcases Nat.le_total fuel (provided.length + loader.size + 1) with enough | short
    · exact ⟨search, run_eq_of_le ran done enough, rfl⟩
    · have whole := ran
      rw [← Nat.add_sub_of_le short, Search.run_add] at whole
      obtain ⟨middle, first, _⟩ := bind_eq_ok.mp whole
      have same := run_eq_of_le first (ends first) short
      cases ran.symm.trans same
      exact ⟨search, first, rfl⟩

/-! ## The order of the entries -/

theorem isClosed_congr {entries' : List ClassName} {names : Set ClassName}
    (same : ∀ name, name ∈ entries' ↔ name ∈ entries) :
    IsClosed lookup entries' provided names ↔ IsClosed lookup entries provided names :=
  ⟨fun closed => ⟨fun name here => closed.entry name ((same name).mpr here), closed.reference⟩,
    fun closed => ⟨fun name here => closed.entry name ((same name).mp here), closed.reference⟩⟩

/-- Everything in a closure can be taken. -/
theorem IsClosure.exists_expands {reach : Reachability}
    (closure : IsClosure lookup entries provided reach) {name : ClassName}
    (here : name ∈ reach.classes.names ++ reach.provided) :
    ∃ references, Expands lookup provided name references := by
  obtain ⟨walk, breadthFirst, classes, recorded⟩ := closure.walk
  obtain ⟨expansions, expanded, _⟩ := breadthFirst.order
  have walked : name ∈ walk := by
    rw [classes, recorded] at here
    exact (List.mem_append.mp here).elim List.mem_of_mem_filter List.mem_of_mem_filter
  obtain ⟨references, _, expands⟩ := exists_of_forall₂_left expanded walked
  exact ⟨references, expands⟩

/-- Entries that only differ in their order and in repetitions have the same closure. -/
theorem IsClosure.subset {entries' : List ClassName} {reach reach' : Reachability}
    (closure : IsClosure lookup entries provided reach)
    (closure' : IsClosure lookup entries' provided reach')
    (same : ∀ name, name ∈ entries' ↔ name ∈ entries) :
    (∀ file ∈ reach'.classes.files, file ∈ reach.classes.files) ∧
      ∀ name ∈ reach'.provided, name ∈ reach.provided := by
  have least := closure'.least
  simp only [isClosed_congr same] at least
  have members := Set.ext_iff.mp (least.unique closure.least)
  constructor
  · intro file here
    have listed : file.name ∈ reach'.classes.names := List.mem_map_of_mem here
    rcases (members file.name).mp (.inl listed) with found | found
    · obtain ⟨other, there, named⟩ := List.mem_map.mp found
      have loads := closure.loaded other there
      rw [named] at loads
      exact loads.unique (closure'.loaded file here) ▸ there
    · exact absurd (closure.provided_mem _ found) (closure'.classes_notMem _ listed)
  · intro name here
    rcases (members name).mp (.inr here) with found | found
    · exact absurd (closure'.provided_mem name here) (closure.classes_notMem name found)
    · exact found

/-- **The closure is the least closed set, in breadth first order.**  A search in a loader gives a
result exactly if a search without a bound on its steps does.  Wherever files are looked up, the
result of such a search is the closure of its entries; and with the same entries in another order,
or with repetitions, there is a result with the same classes and the same provided names. -/
theorem closeOver_isClosure (entries provided : List ClassName) :
    (∀ loader reach, closeOver entries loader provided = .ok reach ↔
      Finds loader.load entries provided reach) ∧
    ∀ lookup reach, Finds lookup entries provided reach →
      IsClosure lookup entries provided reach ∧
      ∀ entries', (∀ name, name ∈ entries' ↔ name ∈ entries) →
        ∃ reach', Finds lookup entries' provided reach' ∧
          (∀ file, file ∈ reach'.classes.files ↔ file ∈ reach.classes.files) ∧
          ∀ name, name ∈ reach'.provided ↔ name ∈ reach.provided := by
  refine ⟨fun _ _ => closeOver_eq_ok, fun lookup reach finds => ⟨finds.isClosure, ?_⟩⟩
  intro entries' same
  have closure := finds.isClosure
  have closed : IsClosed lookup entries' provided
      {name | name ∈ reach.classes.names ++ reach.provided} := by
    simp only [isClosed_congr same, List.mem_append]
    exact closure.least.1
  obtain ⟨reach', finds'⟩ := exists_finds closed fun _ => closure.exists_expands
  have one := closure.subset finds'.isClosure same
  have other := finds'.isClosure.subset closure fun name => (same name).symm
  exact ⟨reach', finds', fun file => ⟨one.1 file, other.1 file⟩,
    fun name => ⟨one.2 name, other.2 name⟩⟩

/-! ## Classes that refer to each other -/

/-- A class file with a super class and interfaces. -/
def heirBytes (name superClass : ClassName) (interfaces : List ClassName) : List UInt8 :=
  Assembly.ClassSketch.bytes
    { Assembly.ClassSketch.empty name (some superClass) with interfaces }

/-- `A` extends `B` and implements itself and `D`, and `B` implements `A`. -/
def entangled : Loader :=
  (ClassStore.ofList [(⟨"A"⟩, heirBytes ⟨"A"⟩ ⟨"B"⟩ [⟨"A"⟩, ⟨"D"⟩]),
    (⟨"B"⟩, heirBytes ⟨"B"⟩ .object [⟨"A"⟩])]).loader

/-- `A` is an entry twice, and `D` is provided. -/
theorem closeOver_entangled_isClosure :
    ∃ reach, closeOver [⟨"A"⟩, ⟨"A"⟩] entangled [.object, ⟨"D"⟩] = .ok reach ∧
      Finds entangled.load [⟨"A"⟩, ⟨"A"⟩] [.object, ⟨"D"⟩] reach ∧
      reach.classes.names = [⟨"A"⟩, ⟨"B"⟩] ∧ reach.provided = [⟨"D"⟩, .object] ∧
      IsClosure entangled.load [⟨"A"⟩, ⟨"A"⟩] [.object, ⟨"D"⟩] reach ∧
      ∃ reach', Finds entangled.load [⟨"A"⟩] [.object, ⟨"D"⟩] reach' ∧
        (∀ file, file ∈ reach'.classes.files ↔ file ∈ reach.classes.files) ∧
        ∀ name, name ∈ reach'.provided ↔ name ∈ reach.provided := by
  have computed : ((closeOver [⟨"A"⟩, ⟨"A"⟩] entangled [.object, ⟨"D"⟩]).toOption.any fun reach =>
      reach.classes.names = [⟨"A"⟩, ⟨"B"⟩] ∧ reach.provided = [⟨"D"⟩, .object]) = true := by
    decide +kernel
  obtain ⟨reach, found, listed⟩ := (Option.any_eq_true _ _).mp computed
  obtain ⟨classes, provided⟩ := of_decide_eq_true listed
  have found := ok_of_toOption found
  obtain ⟨bounded, closes⟩ := closeOver_isClosure [⟨"A"⟩, ⟨"A"⟩] [.object, ⟨"D"⟩]
  have finds := (bounded entangled reach).mp found
  obtain ⟨closure, reordered⟩ := closes entangled.load reach finds
  exact ⟨reach, found, finds, classes, provided, closure, reordered [⟨"A"⟩] (by simp)⟩

end Reachability

end Bytescript
