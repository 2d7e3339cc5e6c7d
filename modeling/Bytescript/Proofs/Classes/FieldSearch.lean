import Bytescript.Proofs.Classes.Parents

/-!
# The search for a field

A field belongs to the first class that declares it: the class that is asked, or else what its
interfaces and then its super class lead to.  Which classes declare it is left open here, because
the search may go by the name of the field alone or by its type as well.  Going by less can only
make the search end earlier, at a class that it would have passed otherwise.

The computed search goes by the name alone.
-/

set_option autoImplicit false

namespace Bytescript

/-- A class declares a field of a name, of whatever type. -/
def ClassFile.NamesField (file : ClassFile) (name : String) : Prop :=
  ∃ field ∈ file.fields, field.name = name

/-- A class declares a field of a name and a type. -/
def ClassFile.DeclaresField (file : ClassFile) (name descriptor : String) : Prop :=
  ∃ field ∈ file.fields, field.name = name ∧ field.descriptor = descriptor

instance (file : ClassFile) (name : String) : Decidable (file.NamesField name) :=
  inferInstanceAs (Decidable (∃ field ∈ file.fields, field.name = name))

instance (file : ClassFile) (name descriptor : String) :
    Decidable (file.DeclaresField name descriptor) :=
  inferInstanceAs (Decidable (∃ field ∈ file.fields, field.name = name ∧ _))

theorem ClassFile.DeclaresField.namesField {file : ClassFile} {name descriptor : String}
    (declared : file.DeclaresField name descriptor) : file.NamesField name := by
  obtain ⟨field, listed, named, _⟩ := declared
  exact ⟨field, listed, named⟩

theorem ClassFile.isSome_field? {file : ClassFile} {name : String} :
    (file.field? name).isSome = true ↔ file.NamesField name := by
  simp [ClassFile.field?, ClassFile.NamesField]

namespace ClassTable

open StartOrder (mem_of_find?)

/-- The search through classes, one after the other.  It is over at the first class that declares
what is sought.  At another known class it goes on with the parents of that, and if they lead to
nothing, with the classes behind it.  It gives the known classes that it passed without success, and
the name of the class where it ended. -/
inductive Search (table : ClassTable) (declares : ClassFile → Prop) :
    List ClassName → List ClassFile → Option ClassName → Prop where
  | done : Search table declares [] [] none
  | skip {name : ClassName} {rest : List ClassName} {passed : List ClassFile}
    {outcome : Option ClassName} (missing : table.find? name = none)
    (later : Search table declares rest passed outcome) :
    Search table declares (name :: rest) passed outcome
  | here {name : ClassName} {rest : List ClassName} {file : ClassFile}
    (found : table.find? name = some file) (declared : declares file) :
    Search table declares (name :: rest) [] (some name)
  | above {name owner : ClassName} {rest : List ClassName} {file : ClassFile}
    {passed : List ClassFile} (found : table.find? name = some file)
    (undeclared : ¬ declares file) (up : Search table declares file.parents passed (some owner)) :
    Search table declares (name :: rest) (file :: passed) (some owner)
  | past {name : ClassName} {rest : List ClassName} {file : ClassFile}
    {passed passed' : List ClassFile} {outcome : Option ClassName}
    (found : table.find? name = some file) (undeclared : ¬ declares file)
    (up : Search table declares file.parents passed none)
    (later : Search table declares rest passed' outcome) :
    Search table declares (name :: rest) (file :: (passed ++ passed')) outcome

variable {table : ClassTable} {declares declares' : ClassFile → Prop} {names : List ClassName}
  {passed : List ClassFile} {outcome : Option ClassName} {owner name : ClassName}
  {file : ClassFile} {field : String} {fuel : Nat}

namespace Search

/-- The search ends at a known class that declares what is sought. -/
theorem exists_declares (search : table.Search declares names passed (some owner)) :
    ∃ file, table.find? owner = some file ∧ declares file := by
  generalize same : some owner = outcome at search
  induction search with
  | done => cases same
  | skip _ _ ih => exact ih same
  | here found declared =>
    cases same
    exact ⟨_, found, declared⟩
  | above _ _ _ ih => exact ih same
  | past _ _ _ _ _ ih => exact ih same

/-- What the search passed is known, and does not declare what is sought. -/
theorem find?_of_mem_passed (search : table.Search declares names passed outcome)
    (member : file ∈ passed) : table.find? file.name = some file ∧ ¬ declares file := by
  induction search with
  | done => cases member
  | skip _ _ ih => exact ih member
  | here => cases member
  | above found undeclared _ ih =>
    rcases List.mem_cons.mp member with rfl | later
    · exact ⟨(mem_of_find? found).2 ▸ found, undeclared⟩
    · exact ih later
  | past found undeclared _ _ ih ih' =>
    rcases List.mem_cons.mp member with rfl | later
    · exact ⟨(mem_of_find? found).2 ▸ found, undeclared⟩
    · exact (List.mem_append.mp later).elim ih ih'

/-! ## Searches that go by less -/

variable (weaker : ∀ file, declares file → declares' file)

include weaker

/-- If no class that was passed attracts the other search, that one goes the same way. -/
theorem of_passed (search : table.Search declares names passed outcome)
    (plain : ∀ file ∈ passed, ¬ declares' file) :
    table.Search declares' names passed outcome := by
  induction search with
  | done => exact .done
  | skip missing _ ih => exact .skip missing (ih plain)
  | here found declared => exact .here found (weaker _ declared)
  | above found _ _ ih =>
    obtain ⟨undeclared, others⟩ := List.forall_mem_cons.mp plain
    exact .above found undeclared (ih others)
  | past found _ _ _ ih ih' =>
    obtain ⟨undeclared, others⟩ := List.forall_mem_cons.mp plain
    obtain ⟨before, behind⟩ := List.forall_mem_append.mp others
    exact .past found undeclared (ih before) (ih' behind)

/-- Otherwise the other search ends at a class that was passed. -/
theorem exists_of_passed (search : table.Search declares names passed outcome)
    (attracted : ∃ file ∈ passed, declares' file) :
    ∃ earlier ∈ passed, ∃ passed', table.Search declares' names passed' (some earlier.name) := by
  have ends {name : ClassName} {rest : List ClassName} {file : ClassFile}
      (found : table.find? name = some file) (declared : declares' file) :
      table.Search declares' (name :: rest) [] (some file.name) := by
    rw [(mem_of_find? found).2]
    exact .here found declared
  induction search with
  | done =>
    obtain ⟨_, member, _⟩ := attracted
    cases member
  | skip missing _ ih =>
    obtain ⟨earlier, member, passed', search'⟩ := ih attracted
    exact ⟨earlier, member, passed', .skip missing search'⟩
  | here =>
    obtain ⟨_, member, _⟩ := attracted
    cases member
  | @above _ _ _ file passed found _ _ ih =>
    by_cases declared : declares' file
    · exact ⟨file, List.mem_cons_self, [], ends found declared⟩
    obtain ⟨earlier, member, passed', search'⟩ :=
      ih ((List.exists_mem_cons_iff _ _ _).mp attracted |>.resolve_left declared)
    exact ⟨earlier, .tail _ member, file :: passed', .above found declared search'⟩
  | @past _ _ file passed passed' _ found _ up later ih ih' =>
    by_cases declared : declares' file
    · exact ⟨file, List.mem_cons_self, [], ends found declared⟩
    have others := (List.exists_mem_cons_iff _ _ _).mp attracted |>.resolve_left declared
    by_cases before : ∃ file ∈ passed, declares' file
    · obtain ⟨earlier, member, seen, search'⟩ := ih before
      exact ⟨earlier, .tail _ (List.mem_append_left _ member), file :: seen,
        .above found declared search'⟩
    · -- The parents attract the other search as little, so it comes to the classes behind.
      obtain ⟨other, member, named⟩ := others
      have plain : ∀ file ∈ passed, ¬ declares' file := fun file listed named =>
        before ⟨file, listed, named⟩
      have behind : other ∈ passed' :=
        (List.mem_append.mp member).resolve_left fun listed => plain other listed named
      obtain ⟨earlier, member, seen, search'⟩ := ih' ⟨other, behind, named⟩
      exact ⟨earlier, .tail _ (List.mem_append_right _ member), file :: (passed ++ seen),
        .past found declared (up.of_passed weaker plain) search'⟩

end Search

/-! ## The computed search -/

theorem findField_of_missing (missing : table.find? name = none) :
    table.findField field fuel name = none := by
  cases fuel with
  | zero => rfl
  | succ fuel => rw [findField, missing]

theorem findField_of_named (found : table.find? name = some file) (named : file.NamesField field) :
    table.findField field (fuel + 1) name = some name := by
  simp only [findField, found, ClassFile.isSome_field?.mpr named, if_true]

theorem findField_of_unnamed (found : table.find? name = some file)
    (unnamed : ¬ file.NamesField field) : table.findField field (fuel + 1) name =
      file.parents.findSome? (table.findField field fuel) := by
  rw [findField, found]
  exact if_neg (mt ClassFile.isSome_field?.mp unnamed)

/-- With enough steps left, the computed search ends where the search by the name does. -/
theorem Search.findSome?_findField (founded : table.IsFounded)
    (search : table.Search (fun file => file.NamesField field) names passed outcome)
    (enough : ∀ name ∈ names, table.Suffices fuel name) :
    names.findSome? (table.findField field fuel) = outcome := by
  induction search generalizing fuel with
  | done => rfl
  | skip missing _ ih =>
    rw [List.findSome?_cons, findField_of_missing missing]
    exact ih (List.forall_mem_cons.mp enough).2
  | here found named =>
    obtain ⟨less, rfl, _⟩ := (enough _ List.mem_cons_self).exists_succ founded found
    rw [List.findSome?_cons, findField_of_named found named]
  | above found unnamed _ ih =>
    obtain ⟨less, rfl, parents⟩ := (enough _ List.mem_cons_self).exists_succ founded found
    rw [List.findSome?_cons, findField_of_unnamed found unnamed, ih parents]
  | past found unnamed _ _ ih ih' =>
    obtain ⟨less, rfl, parents⟩ := (enough _ List.mem_cons_self).exists_succ founded found
    rw [List.findSome?_cons, findField_of_unnamed found unnamed, ih parents]
    exact ih' (List.forall_mem_cons.mp enough).2

/-- **Fields are found by their names.** -/
theorem Search.resolveField_eq (founded : table.IsFounded)
    (search : table.Search (fun file => file.NamesField field) [name] passed (some owner)) :
    table.resolveField name field = owner := by
  have found := search.findSome?_findField founded
    (List.forall_mem_singleton.mpr (table.suffices_size name))
  rw [List.findSome?_singleton] at found
  rw [resolveField, found]
  rfl

end ClassTable

end Bytescript
