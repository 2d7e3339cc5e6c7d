import Bytescript.Proofs.Program.LinkedUse

/-!
# Ancestries

The ancestry of a class is found with one step for each class of the table.  As long as no class
has itself among its super classes, that is enough: the classes on the way up all have different
names, so the way leaves the table or ends in time.  The ancestry of a class is then the class and
the ancestry of its super class, and the ancestry of every class on the way is a part of it.

A class is also deeper than all that stand above it, so at most one class of a chain has a depth.
-/

set_option autoImplicit false

namespace Bytescript.ClassTable

open StartOrder (Above mem_of_find?)

variable {table : ClassTable} {name superClass : ClassName} {file other : ClassFile} {fuel : Nat}

/-- No class stands above itself. -/
def Acyclic (table : ClassTable) : Prop := ∀ name, ¬ Relation.TransGen (Above table) name name

/-! ## The way up -/

theorem lineage_of_missing (missing : table.find? name = none) : table.lineage fuel name = [] := by
  cases fuel with
  | zero => rfl
  | succ fuel => rw [lineage, missing]

theorem lineage_of_top (found : table.find? name = some file) (top : file.superClass = none) :
    table.lineage (fuel + 1) name = [file] := by
  simp only [lineage, found, top]

theorem lineage_of_super (found : table.find? name = some file)
    (above : file.superClass = some superClass) :
    table.lineage (fuel + 1) name = file :: table.lineage fuel superClass := by
  simp only [lineage, found, above]

/-- Everything on the way up is in the table, and stands above where the way begins. -/
theorem above_of_mem_lineage (member : file ∈ table.lineage fuel name) :
    table.find? file.name = some file ∧
      Relation.ReflTransGen (Above table) name file.name := by
  induction fuel generalizing name with
  | zero => cases member
  | succ fuel ih =>
    cases found : table.find? name with
    | none => rw [lineage_of_missing found] at member; cases member
    | some first =>
      have named := (mem_of_find? found).2
      cases above : first.superClass with
      | none =>
        rw [lineage_of_top found above, List.mem_singleton] at member
        subst member
        rw [named]
        exact ⟨found, .refl⟩
      | some superClass =>
        rw [lineage_of_super found above, List.mem_cons] at member
        rcases member with rfl | later
        · rw [named]
          exact ⟨found, .refl⟩
        · obtain ⟨present, chain⟩ := ih later
          exact ⟨present, chain.head ⟨first, found, above⟩⟩

/-- A way without a circle meets no class twice. -/
theorem nodup_lineage (acyclic : table.Acyclic) (fuel : Nat) (name : ClassName) :
    ((table.lineage fuel name).map ClassFile.name).Nodup := by
  induction fuel generalizing name with
  | zero => exact List.nodup_nil
  | succ fuel ih =>
    cases found : table.find? name with
    | none => rw [lineage_of_missing found]; exact List.nodup_nil
    | some file =>
      cases above : file.superClass with
      | none => rw [lineage_of_top found above]; exact List.nodup_singleton _
      | some superClass =>
        rw [lineage_of_super found above, List.map_cons, List.nodup_cons]
        refine ⟨fun again => ?_, ih superClass⟩
        obtain ⟨other, member, same⟩ := List.mem_map.mp again
        have chain := (above_of_mem_lineage member).2
        rw [same, (mem_of_find? found).2] at chain
        exact acyclic name (.head' ⟨file, found, above⟩ chain)

theorem length_lineage_le (acyclic : table.Acyclic) (fuel : Nat) (name : ClassName) :
    (table.lineage fuel name).length ≤ table.size := by
  have known : (table.lineage fuel name).map ClassFile.name ⊆ table.names := by
    intro one named
    obtain ⟨file, member, rfl⟩ := List.mem_map.mp named
    exact List.mem_map_of_mem (mem_of_find? (above_of_mem_lineage member).1).1
  have bound := ((nodup_lineage acyclic fuel name).subperm known).length_le
  rwa [List.length_map, names, List.length_map] at bound

/-- A step more changes nothing where the way was not cut off. -/
theorem lineage_succ_of_length_le (short : (table.lineage (fuel + 1) name).length ≤ fuel) :
    table.lineage (fuel + 1) name = table.lineage fuel name := by
  induction fuel generalizing name with
  | zero => exact List.length_eq_zero_iff.mp (Nat.le_zero.mp short)
  | succ fuel ih =>
    cases found : table.find? name with
    | none => rw [lineage_of_missing found, lineage_of_missing found]
    | some file =>
      cases above : file.superClass with
      | none => rw [lineage_of_top found above, lineage_of_top found above]
      | some superClass =>
        rw [lineage_of_super found above, List.length_cons] at short
        rw [lineage_of_super found above, lineage_of_super found above,
          ih (Nat.le_of_succ_le_succ short)]

/-! ## Ancestries and their parts -/

theorem ancestry_of_missing (missing : table.find? name = none) : table.ancestry name = [] :=
  lineage_of_missing missing

theorem size_eq_succ (found : table.find? name = some file) : ∃ fuel, table.size = fuel + 1 := by
  have filled := List.length_pos_of_mem (mem_of_find? found).1
  exact ⟨table.size - 1, (Nat.sub_add_cancel filled).symm⟩

theorem ancestry_of_top (found : table.find? name = some file) (top : file.superClass = none) :
    table.ancestry name = [file] := by
  obtain ⟨fuel, size⟩ := size_eq_succ found
  rw [ancestry, size, lineage_of_top found top]

/-- The ancestry of a class is the class and the ancestry of its super class. -/
theorem ancestry_of_super (acyclic : table.Acyclic) (found : table.find? name = some file)
    (above : file.superClass = some superClass) :
    table.ancestry name = file :: table.ancestry superClass := by
  obtain ⟨fuel, size⟩ := size_eq_succ found
  have bound := length_lineage_le acyclic (fuel + 2) name
  rw [lineage_of_super found above, List.length_cons, size] at bound
  rw [ancestry, ancestry, size, lineage_of_super found above,
    lineage_succ_of_length_le (Nat.le_of_succ_le_succ bound)]

theorem find?_of_mem_ancestry (member : file ∈ table.ancestry name) :
    table.find? file.name = some file :=
  (above_of_mem_lineage member).1

/-- A known class begins its own ancestry. -/
theorem exists_ancestry_eq_cons (acyclic : table.Acyclic) (found : table.find? name = some file) :
    ∃ rest, table.ancestry name = file :: rest := by
  cases above : file.superClass with
  | none => exact ⟨_, ancestry_of_top found above⟩
  | some superClass => exact ⟨_, ancestry_of_super acyclic found above⟩

/-- What stands behind a class in an ancestry is what stands behind it in its own one. -/
theorem ancestry_suffix (acyclic : table.Acyclic) (member : file ∈ table.ancestry name) :
    table.ancestry file.name <:+ table.ancestry name := by
  suffices every : ∀ fuel name, file ∈ table.lineage fuel name →
      table.ancestry file.name <:+ table.ancestry name from every _ _ member
  intro fuel
  induction fuel with
  | zero => intro name member; cases member
  | succ fuel ih =>
    intro name member
    cases found : table.find? name with
    | none => rw [lineage_of_missing found] at member; cases member
    | some first =>
      have named := (mem_of_find? found).2
      cases above : first.superClass with
      | none =>
        rw [lineage_of_top found above, List.mem_singleton] at member
        rw [member, named]
      | some superClass =>
        rw [lineage_of_super found above, List.mem_cons] at member
        rcases member with rfl | later
        · rw [named]
        · rw [ancestry_of_super acyclic found above]
          exact (ih superClass later).trans (List.suffix_cons _ _)

/-- Of two classes of a chain, one stands above the other. -/
theorem above_or_above_of_mem_ancestry (acyclic : table.Acyclic)
    (member : file ∈ table.ancestry name) (member' : other ∈ table.ancestry name) :
    file = other ∨ other ∈ (table.ancestry file.name).tail ∨
      file ∈ (table.ancestry other.name).tail := by
  obtain ⟨rest, begins⟩ := exists_ancestry_eq_cons acyclic (find?_of_mem_ancestry member)
  obtain ⟨rest', begins'⟩ := exists_ancestry_eq_cons acyclic (find?_of_mem_ancestry member')
  have suffix := ancestry_suffix acyclic member
  have suffix' := ancestry_suffix acyclic member'
  rw [begins] at suffix ⊢
  rw [begins'] at suffix' ⊢
  rcases List.suffix_or_suffix_of_suffix suffix suffix' with below | below
  · rcases List.suffix_cons_iff.mp below with same | inner
    · exact .inl (List.cons.inj same).1
    · exact .inr (.inr (inner.subset List.mem_cons_self))
  · rcases List.suffix_cons_iff.mp below with same | inner
    · exact .inl (List.cons.inj same).1.symm
    · exact .inr (.inl (inner.subset List.mem_cons_self))

/-! ## Depths -/

/-- A class is deeper than each class above it. -/
theorem depth_lt_of_mem_tail (acyclic : table.Acyclic)
    (above : other ∈ (table.ancestry name).tail) : table.depth other.name < table.depth name := by
  cases found : table.find? name with
  | none => rw [ancestry_of_missing found] at above; cases above
  | some file =>
    cases up : file.superClass with
    | none => rw [ancestry_of_top found up] at above; cases above
    | some superClass =>
      have split := ancestry_of_super acyclic found up
      rw [split, List.tail_cons] at above
      have part := (ancestry_suffix acyclic above).sublist.countP_le
        (p := fun file => file.superClass.isSome)
      rw [depth, depth, split, List.countP_cons_of_pos (by rw [up]; rfl)]
      exact Nat.lt_succ_of_le part

/-- The depth of a class tells it from the other classes of a chain. -/
theorem eq_of_depth_eq (acyclic : table.Acyclic) (member : file ∈ table.ancestry name)
    (member' : other ∈ table.ancestry name)
    (same : table.depth file.name = table.depth other.name) : file = other := by
  rcases above_or_above_of_mem_ancestry acyclic member member' with equal | above | below
  · exact equal
  · exact absurd (depth_lt_of_mem_tail acyclic above) (by omega)
  · exact absurd (depth_lt_of_mem_tail acyclic below) (by omega)

end Bytescript.ClassTable
