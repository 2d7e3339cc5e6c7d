import Bytescript.Proofs.Classes.Ancestry

/-!
# Parents of classes

The parents of a class are its interfaces and its super class.  A search for a member goes from a
class to its parents, and to theirs, as long as the classes are known.  If no class inherits from
itself, the classes on the way to another one are all different, so a step for each class of the
table is enough to come to the end of every way.
-/

set_option autoImplicit false

namespace Bytescript

/-- The interfaces of a class in order, and then its super class. -/
def ClassFile.parents (file : ClassFile) : List ClassName :=
  file.interfaces ++ file.superClass.toList

namespace ClassTable

open StartOrder (Above mem_of_find?)

variable {table : ClassTable} {name parent : ClassName} {file : ClassFile} {way : List ClassName}
  {fuel : Nat}

/-- A known class has another one as its super class or as one of its interfaces. -/
def Parent (table : ClassTable) (name parent : ClassName) : Prop :=
  ∃ file, table.find? name = some file ∧ parent ∈ file.parents

/-- No class inherits from itself. -/
def IsFounded (table : ClassTable) : Prop := ∀ name, ¬ Relation.TransGen (Parent table) name name

theorem parent_of_above (above : Above table name parent) : Parent table name parent := by
  obtain ⟨file, found, up⟩ := above
  exact ⟨file, found, List.mem_append_right _ (Option.mem_toList.mpr up)⟩

/-- No class stands above itself. -/
theorem IsFounded.acyclic (founded : table.IsFounded) : table.Acyclic :=
  fun name circle => founded name (circle.lift id fun _ _ => parent_of_above)

/-- Classes that can be numbered so that the numbers fall from a class to its parents. -/
theorem isFounded_of_falls (rank : ClassName → Nat)
    (falls : ∀ file ∈ table.files, ∀ parent ∈ file.parents, rank parent < rank file.name) :
    table.IsFounded := by
  have step {name parent : ClassName} (inherits : Parent table name parent) :
      rank parent < rank name := by
    obtain ⟨file, found, listed⟩ := inherits
    obtain ⟨member, rfl⟩ := mem_of_find? found
    exact falls file member parent listed
  have chain {name other : ClassName} (inherits : Relation.TransGen (Parent table) name other) :
      rank other < rank name := by
    induction inherits with
    | single inherits => exact step inherits
    | tail _ inherits ih => exact (step inherits).trans ih
  exact fun name circle => lt_irrefl _ (chain circle)

/-! ## Ways of a search -/

/-- The names of known classes that a search may have gone through before it came to a class. -/
structure IsWay (table : ClassTable) (way : List ClassName) (name : ClassName) : Prop where
  distinct : way.Nodup
  known : way ⊆ table.names
  leads : ∀ passed ∈ way, Relation.TransGen (Parent table) passed name

theorem isWay_nil (table : ClassTable) (name : ClassName) : table.IsWay [] name :=
  ⟨List.nodup_nil, List.nil_subset _, fun _ member => by cases member⟩

theorem mem_names_of_find? (found : table.find? name = some file) : name ∈ table.names := by
  obtain ⟨member, rfl⟩ := mem_of_find? found
  exact List.mem_map_of_mem member

namespace IsWay

/-- A search does not come back to where it was. -/
theorem nodup_cons (founded : table.IsFounded) (reached : table.IsWay way name) :
    (name :: way).Nodup :=
  List.nodup_cons.mpr ⟨fun again => founded name (reached.leads name again), reached.distinct⟩

/-- A search that is at a known class has not seen all of them yet. -/
theorem length_lt (founded : table.IsFounded) (reached : table.IsWay way name)
    (found : table.find? name = some file) : way.length < table.size := by
  have known : name :: way ⊆ table.names :=
    List.cons_subset.mpr ⟨mem_names_of_find? found, reached.known⟩
  have bound := ((reached.nodup_cons founded).subperm known).length_le
  rwa [List.length_cons, names, List.length_map] at bound

/-- The way goes on from a known class to each of its parents. -/
theorem cons (founded : table.IsFounded) (reached : table.IsWay way name)
    (found : table.find? name = some file) (listed : parent ∈ file.parents) :
    table.IsWay (name :: way) parent := by
  have inherits : Parent table name parent := ⟨file, found, listed⟩
  refine ⟨reached.nodup_cons founded,
    List.cons_subset.mpr ⟨mem_names_of_find? found, reached.known⟩, ?_⟩
  intro passed member
  rcases List.mem_cons.mp member with rfl | earlier
  · exact .single inherits
  · exact (reached.leads passed earlier).tail inherits

end IsWay

/-- There are enough steps left for a search that came to a class: with those taken on the way, at
least as many as there are classes. -/
def Suffices (table : ClassTable) (fuel : Nat) (name : ClassName) : Prop :=
  ∃ way, table.IsWay way name ∧ table.size ≤ way.length + fuel

theorem suffices_size (table : ClassTable) (name : ClassName) : table.Suffices table.size name :=
  ⟨[], isWay_nil table name, Nat.le_add_left _ _⟩

/-- At a known class there is a step left, and there are enough for each of the parents then. -/
theorem Suffices.exists_succ (founded : table.IsFounded) (enough : table.Suffices fuel name)
    (found : table.find? name = some file) :
    ∃ less, fuel = less + 1 ∧ ∀ parent ∈ file.parents, table.Suffices less parent := by
  obtain ⟨way, reached, bound⟩ := enough
  have unseen := reached.length_lt founded found
  refine ⟨fuel - 1, by omega, fun parent listed => ?_⟩
  refine ⟨name :: way, reached.cons founded found listed, ?_⟩
  rw [List.length_cons]
  omega

end ClassTable

end Bytescript
