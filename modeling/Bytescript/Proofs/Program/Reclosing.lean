import Bytescript.Proofs.Program.Missing

/-!
# Closing again changes nothing

Provided names lead to nothing, so the classes that a search loads already decide what else is
found.  Both the classes and the provided names of a closure are therefore a list of first mentions
in the entries and in what the classes refer to, one class after the other.  If a second search
starts at all classes of the first one, these are known from the start, and nothing comes behind
them but provided names.  Each of them comes up as it did before, unless an entry of the first
search brought it up.
-/

set_option autoImplicit false

namespace Bytescript

theorem ClassTable.eq_of_files {table table' : ClassTable} (same : table.files = table'.files) :
    table = table' := by
  cases table
  cases table'
  cases same
  rfl

namespace Reachability

variable {lookup : Lookup} {entries provided : List ClassName} {reach reach' : Reachability}

/-! ## What the classes of a closure decide -/

theorem followed_of_mem {name : ClassName} (here : name ∈ provided) :
    followed lookup provided name = [] := by
  rw [followed, if_pos here]

/-- Provided names lead to nothing, so they can be left out of a walk. -/
theorem flatMap_followed (lookup : Lookup) (provided walk : List ClassName) :
    walk.flatMap (followed lookup provided) =
      (walk.filter (· ∉ provided)).flatMap (followed lookup provided) := by
  induction walk with
  | nil => rfl
  | cons name rest ih =>
    by_cases here : name ∈ provided
    · rw [List.flatMap_cons, followed_of_mem here, List.nil_append, ih,
        List.filter_cons_of_neg (by simpa using here)]
    · rw [List.flatMap_cons, ih, List.filter_cons_of_pos (by simpa using here), List.flatMap_cons]

/-- Everything that a closure comes across, with repetitions: the entries, and then what its classes
refer to. -/
def mentions (lookup : Lookup) (entries provided : List ClassName) (reach : Reachability) :
    List ClassName :=
  entries ++ reach.classes.names.flatMap (followed lookup provided)

/-- The classes and the provided names of a closure are what it comes across, each name where it
comes up first. -/
theorem IsClosure.eq_mentions (closure : IsClosure lookup entries provided reach) :
    reach.classes.names =
        ((mentions lookup entries provided reach).filter (· ∉ provided)).eraseDups ∧
      reach.provided =
        ((mentions lookup entries provided reach).filter (· ∈ provided)).eraseDups := by
  obtain ⟨walk, breadthFirst, classes, recorded⟩ := closure.walk
  obtain ⟨expansions, expanded, whole⟩ := breadthFirst.order
  have first : walk = (mentions lookup entries provided reach).eraseDups := by
    rw [expansions_eq_map_followed expanded, ← List.flatMap_def, flatMap_followed, ← classes]
      at whole
    exact whole
  rw [← filter_eraseDups, ← filter_eraseDups, ← first]
  exact ⟨classes, recorded⟩

/-! ## The classes of a closure as entries -/

/-- The classes and provided names of a closure are closed with its classes as entries as well. -/
theorem IsClosure.isClosed_again (closure : IsClosure lookup entries provided reach) :
    IsClosed lookup reach.classes.names provided
      {name | name ∈ reach.classes.names ++ reach.provided} := by
  have closed := closure.least.1
  simp only [← List.mem_append] at closed
  exact ⟨fun _ listed => List.mem_append_left _ listed, closed.reference⟩

theorem IsClosure.exists_finds_again (closure : IsClosure lookup entries provided reach) :
    ∃ reach', Finds lookup reach.classes.names provided reach' :=
  exists_finds closure.isClosed_again fun _ => closure.exists_expands

/-- A second closure begins with the classes of the first one and finds no others. -/
theorem IsClosure.names_again (closure : IsClosure lookup entries provided reach)
    (again : IsClosure lookup reach.classes.names provided reach') :
    reach'.classes.names = reach.classes.names := by
  have own : reach.classes.names.filter (· ∉ provided) = reach.classes.names :=
    List.filter_eq_self.mpr fun name here => decide_eq_true (closure.classes_notMem name here)
  have distinct : reach.classes.names.Nodup := reach.classes.distinct
  have begins : reach.classes.names <+: reach'.classes.names := by
    have whole := again.eq_mentions.1
    rw [mentions, List.filter_append, own, List.eraseDups_append,
      eraseDups_eq_self distinct] at whole
    exact ⟨_, whole.symm⟩
  have known : reach'.classes.names ⊆ reach.classes.names := by
    intro name here
    have inside : name ∈ reach.classes.names ++ reach.provided :=
      again.least.2 closure.isClosed_again (.inl here)
    refine (List.mem_append.mp inside).resolve_right fun recorded => ?_
    exact again.classes_notMem name here (closure.provided_mem name recorded)
  exact (begins.eq_of_length_le (reach'.classes.distinct.length_le_of_subset known)).symm

/-- A name has one class only, so the classes of a closure are known by their names. -/
theorem IsClosure.classes_eq {entries' : List ClassName}
    (closure : IsClosure lookup entries provided reach)
    (closure' : IsClosure lookup entries' provided reach')
    (same : reach'.classes.names = reach.classes.names) : reach'.classes = reach.classes := by
  have files : reach'.classes.files = reach.classes.files := by
    refine List.ext_getElem (by simpa [ClassTable.names] using congrArg List.length same) ?_
    intro place here there
    have named : reach'.classes.files[place].name = reach.classes.files[place].name := by
      simpa [ClassTable.names, here, there] using congrArg (·[place]?) same
    have loads := closure'.loaded _ (List.getElem_mem here)
    rw [named] at loads
    exact loads.unique (closure.loaded _ (List.getElem_mem there))
  exact ClassTable.eq_of_files files

/-- The result of a second search is that of the first one, in the same order.  Only a provided name
that was an entry may come up elsewhere, or not at all. -/
structure Repeats (entries provided : List ClassName) (reach reach' : Reachability) : Prop where
  classes : reach'.classes = reach.classes
  provided : (∀ name ∈ entries, name ∉ provided) → reach'.provided = reach.provided

theorem Repeats.eq (repeats : Repeats entries provided reach reach')
    (apart : ∀ name ∈ entries, name ∉ provided) : reach' = reach := by
  have classes := repeats.classes
  have recorded := repeats.provided apart
  cases reach
  cases reach'
  cases classes
  cases recorded
  rfl

theorem IsClosure.repeats (closure : IsClosure lookup entries provided reach)
    (again : IsClosure lookup reach.classes.names provided reach') :
    Repeats entries provided reach reach' where
  classes := closure.classes_eq again (closure.names_again again)
  provided apart := by
    have none {names : List ClassName} (apart : ∀ name ∈ names, name ∉ provided) :
        names.filter (· ∈ provided) = [] :=
      List.filter_eq_nil_iff.mpr fun name listed => by simpa using apart name listed
    rw [closure.eq_mentions.2, again.eq_mentions.2, mentions, mentions, List.filter_append,
      List.filter_append, none apart, none closure.classes_notMem, closure.names_again again]

/-- **Closing again changes nothing.**  If a search gives a result, then so does the search that
starts at the classes of this result, with the same classes in the same order; and if no entry of
the first search was provided, also with the same provided names in the same order. -/
theorem closeOver_repeats (entries provided : List ClassName) :
    (∀ loader reach, closeOver entries loader provided = .ok reach →
      ∃ reach', closeOver reach.classes.names loader provided = .ok reach' ∧
        Repeats entries provided reach reach') ∧
    ∀ lookup reach, Finds lookup entries provided reach →
      ∃ reach', Finds lookup reach.classes.names provided reach' ∧
        Repeats entries provided reach reach' := by
  have repeats {lookup : Lookup} {reach : Reachability}
      (finds : Finds lookup entries provided reach) :
      ∃ reach', Finds lookup reach.classes.names provided reach' ∧
        Repeats entries provided reach reach' := by
    obtain ⟨reach', again⟩ := finds.isClosure.exists_finds_again
    exact ⟨reach', again, finds.isClosure.repeats again.isClosure⟩
  refine ⟨fun loader reach closed => ?_, fun _ _ => repeats⟩
  obtain ⟨reach', again, same⟩ := repeats (closeOver_eq_ok.mp closed)
  exact ⟨reach', closeOver_eq_ok.mpr again, same⟩

/-! ## Names that are found from elsewhere -/

/-- `A` extends `B`, and both implement interfaces that are not there; `B` extends `C`, which refers
back to `A`. -/
def descending : Loader :=
  (ClassStore.ofList [(⟨"A"⟩, heirBytes ⟨"A"⟩ ⟨"B"⟩ [⟨"Q"⟩]),
    (⟨"B"⟩, heirBytes ⟨"B"⟩ ⟨"C"⟩ [⟨"R"⟩, ⟨"Q"⟩]),
    (⟨"C"⟩, heirBytes ⟨"C"⟩ .object [⟨"A"⟩, ⟨"R"⟩])]).loader

/-- The first search finds `Q` before `C`, and the second one after it. -/
theorem closeOver_descending_repeats :
    ∃ reach, closeOver [⟨"A"⟩] descending [.object, ⟨"R"⟩, ⟨"Q"⟩] = .ok reach ∧
      reach.classes.names = [⟨"A"⟩, ⟨"B"⟩, ⟨"C"⟩] ∧
      reach.provided = [⟨"Q"⟩, ⟨"R"⟩, .object] ∧
      closeOver [⟨"A"⟩, ⟨"B"⟩, ⟨"C"⟩] descending [.object, ⟨"R"⟩, ⟨"Q"⟩] = .ok reach := by
  have computed : ((closeOver [⟨"A"⟩] descending [.object, ⟨"R"⟩, ⟨"Q"⟩]).toOption.any
      fun reach => reach.classes.names = [⟨"A"⟩, ⟨"B"⟩, ⟨"C"⟩] ∧
        reach.provided = [⟨"Q"⟩, ⟨"R"⟩, .object]) = true := by
    decide +kernel
  obtain ⟨reach, found, listed⟩ := (Option.any_eq_true _ _).mp computed
  obtain ⟨classes, recorded⟩ := of_decide_eq_true listed
  have found := ok_of_toOption found
  obtain ⟨reach', again, same⟩ := (closeOver_repeats [⟨"A"⟩] _).1 descending reach found
  rw [same.eq (by decide), classes] at again
  exact ⟨reach, found, classes, recorded, again⟩

end Reachability

end Bytescript
