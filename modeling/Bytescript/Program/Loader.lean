import Bytescript.Failure

/-!
# Where classes come from

A loader has a limited number of class files and finds them by the names of classes.  The same
file may be found by different names, and the class in it may have another name still; that is
for those to check who read it.  Loaders can be put one after the other, and then the first one
that finds a class gives it.

That the number is limited bounds the steps of a search.  It excludes no search that ends, as such a
search asks for finitely many files (`Reachability.Finds.exists_loader`,
`Reachability.Fails.exists_loader`).
-/

set_option autoImplicit false

namespace Bytescript

/-- What is found by the names of classes: the content of a class file, or nothing, or a file that
cannot be read. -/
abbrev Lookup : Type := ClassName → Except Failure (Option (List UInt8))

/-- Class files, and how they are found.  A file that is there may still be unreadable. -/
structure Loader where
  files : List (Except Failure (List UInt8))
  /-- The index of the file for a class. -/
  find : ClassName → Option (Fin files.length)

namespace Loader

/-- The content of the file for a class, or nothing if there is none. -/
def load (loader : Loader) : Lookup := fun name =>
  match loader.find name with
  | none => .ok none
  | some index => loader.files[index].map some

/-- The number of class files. -/
def size (loader : Loader) : Nat := loader.files.length

/-- A loader without files. -/
def empty : Loader := ⟨[], fun _ => none⟩

/-- Asks the second loader for what the first one does not find. -/
def orElse (first second : Loader) : Loader where
  files := first.files ++ second.files
  find name :=
    match first.find name, second.find name with
    | some index, _ => some ((index.castAdd second.files.length).cast (by simp))
    | none, some index => some ((index.natAdd first.files.length).cast (by simp))
    | none, none => none

/-- Asks loaders one after the other. -/
def firstOf (loaders : List Loader) : Loader := loaders.foldr orElse empty

end Loader

/-- Class files by the names of their classes, each name once. -/
structure ClassStore where
  entries : List (ClassName × List UInt8)

namespace ClassStore

/-- No class files. -/
def empty : ClassStore := ⟨[]⟩

/-- Replaces the entry of a name, or adds it at the end. -/
def insertEntry (name : ClassName) (bytes : List UInt8) :
    List (ClassName × List UInt8) → List (ClassName × List UInt8)
  | [] => [(name, bytes)]
  | (other, old) :: rest =>
    if other = name then (name, bytes) :: rest else (other, old) :: insertEntry name bytes rest

/-- Adds a class file, or replaces the one of the same name. -/
def insert (store : ClassStore) (name : ClassName) (bytes : List UInt8) : ClassStore :=
  ⟨insertEntry name bytes store.entries⟩

/-- A store of the given class files. -/
def ofList (entries : List (ClassName × List UInt8)) : ClassStore :=
  entries.foldl (fun store (name, bytes) => store.insert name bytes) empty

/-- The names of all classes. -/
def names (store : ClassStore) : List ClassName := store.entries.map Prod.fst

/-- The number of class files. -/
def size (store : ClassStore) : Nat := store.entries.length

/-- The loader that finds the classes of a store. -/
def loader (store : ClassStore) : Loader where
  files := store.entries.map fun (_, bytes) => .ok bytes
  find name := (store.names.finIdxOf? name).map (Fin.cast (by simp [names]))

end ClassStore

end Bytescript
