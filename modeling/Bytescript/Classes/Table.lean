import Bytescript.ClassFile.Basic

/-!
# Tables of classes

The classes of a program, in the order in which they were found and each under its own name.
Adding a class of a name that is there already replaces the earlier one in its place.
-/

set_option autoImplicit false

namespace Bytescript

/-- Classes with different names, in order. -/
structure ClassTable where
  files : List ClassFile
  distinct : (files.map ClassFile.name).Nodup

namespace ClassTable

/-- No classes. -/
def empty : ClassTable := ⟨[], by simp⟩

/-- The class with a name. -/
def find? (table : ClassTable) (name : ClassName) : Option ClassFile :=
  table.files.find? fun file => file.name = name

/-- Whether there is a class with a name. -/
def contains (table : ClassTable) (name : ClassName) : Bool := (table.find? name).isSome

/-- The names of all classes. -/
def names (table : ClassTable) : List ClassName := table.files.map ClassFile.name

/-- The number of classes. -/
def size (table : ClassTable) : Nat := table.files.length

/-- Replaces the class of the same name, or adds the class at the end. -/
def insertFile (file : ClassFile) : List ClassFile → List ClassFile
  | [] => [file]
  | other :: rest => if other.name = file.name then file :: rest else other :: insertFile file rest

/-- Inserting adds no name but that of the class. -/
theorem mem_names_insertFile (file : ClassFile) (name : ClassName) (files : List ClassFile)
    (member : name ∈ (insertFile file files).map ClassFile.name) :
    name = file.name ∨ name ∈ files.map ClassFile.name := by
  induction files with
  | nil => simpa [insertFile] using member
  | cons other rest ih =>
    by_cases same : other.name = file.name
    · simp only [insertFile, same, if_true, List.map_cons, List.mem_cons] at member ⊢
      rcases member with head | tail
      · exact .inl head
      · exact .inr (.inr tail)
    · simp only [insertFile, same, if_false, List.map_cons, List.mem_cons] at member ⊢
      rcases member with head | tail
      · exact .inr (.inl head)
      · rcases ih tail with new | old
        · exact .inl new
        · exact .inr (.inr old)

/-- Inserting keeps names different. -/
theorem nodup_insertFile (file : ClassFile) (files : List ClassFile)
    (distinct : (files.map ClassFile.name).Nodup) :
    ((insertFile file files).map ClassFile.name).Nodup := by
  induction files with
  | nil => simp [insertFile]
  | cons other rest ih =>
    simp only [List.map_cons, List.nodup_cons] at distinct
    by_cases same : other.name = file.name
    · simp only [insertFile, same, if_true, List.map_cons, List.nodup_cons]
      exact ⟨same ▸ distinct.1, distinct.2⟩
    · simp only [insertFile, same, if_false, List.map_cons, List.nodup_cons]
      refine ⟨fun member => ?_, ih distinct.2⟩
      rcases mem_names_insertFile file other.name rest member with new | old
      · exact same new
      · exact distinct.1 old

/-- Adds a class, or replaces the one of the same name. -/
def insert (table : ClassTable) (file : ClassFile) : ClassTable :=
  ⟨insertFile file table.files, nodup_insertFile file table.files table.distinct⟩

/-- A table of the given classes. -/
def ofList (files : List ClassFile) : ClassTable := files.foldl insert empty

end ClassTable

end Bytescript
