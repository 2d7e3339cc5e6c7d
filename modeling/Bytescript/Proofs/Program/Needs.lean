import Bytescript.Program.Reachability
import Bytescript.Proofs.Failure
import Mathlib.Data.List.Induction
import Mathlib.Order.Bounds.Basic

/-!
# What classes need

The classes that a program needs are the least set that has the entries and, with a class that is
not provided, everything that its file refers to.  A walk that is breadth first lists the entries
and then what each of the names on it leads to, every name where it comes up first.
-/

set_option autoImplicit false

namespace Bytescript

/-! ## References -/

/-- An instruction names a class: the owner of the field or method that it uses, the class or array
class that it creates or tests for, or the one whose object it loads.  A dynamic call names none. -/
inductive Instruction.Names : Instruction → ClassName → Prop where
  | getStatic (field : MemberRef) : Names (.getStatic field) field.owner
  | putStatic (field : MemberRef) : Names (.putStatic field) field.owner
  | getField (field : MemberRef) : Names (.getField field) field.owner
  | putField (field : MemberRef) : Names (.putField field) field.owner
  | invokeVirtual (method : MemberRef) : Names (.invokeVirtual method) method.owner
  | invokeInterface (method : MemberRef) : Names (.invokeInterface method) method.owner
  | invokeSpecial (method : MemberRef) (isInterface : Bool) :
    Names (.invokeSpecial method isInterface) method.owner
  | invokeStatic (method : MemberRef) (isInterface : Bool) :
    Names (.invokeStatic method isInterface) method.owner
  | new (name : ClassName) : Names (.new name) name
  | newReferenceArray (name : ClassName) : Names (.newReferenceArray name) name
  | newMultiArray (name : ClassName) (dimensions : Nat) :
    Names (.newMultiArray name dimensions) name
  | checkCast (name : ClassName) : Names (.checkCast name) name
  | instanceOf (name : ClassName) : Names (.instanceOf name) name
  | classLiteral (name : ClassName) : Names (.loadConstant (.classLiteral name)) name

theorem Instruction.names_iff {instruction : Instruction} {name : ClassName} :
    instruction.Names name ↔ instruction.namedClass? = some name := by
  constructor
  · intro names
    cases names <;> rfl
  · intro found
    unfold Instruction.namedClass? at found
    split at found <;> cases found <;> constructor

/-- A class refers to another one. -/
inductive ClassFile.RefersTo (file : ClassFile) : ClassName → Prop where
  | super {name : ClassName} (above : file.superClass = some name) : RefersTo file name
  | interface {name : ClassName} (listed : name ∈ file.interfaces) : RefersTo file name
  /-- An instruction names a class, or an array class with elements of the class. -/
  | operand {method : Method} {code : Code} {instructions : List Placed} {placed : Placed}
    {name element : ClassName} (declared : method ∈ file.methods) (body : method.code = some code)
    (decoded : file.instructionsOf code = .ok instructions) (present : placed ∈ instructions)
    (named : placed.instruction.Names name) (elements : name.elementClass? = some element) :
    RefersTo file element
  | caught {method : Method} {code : Code} {entry : ExceptionEntry} {name : ClassName}
    (declared : method ∈ file.methods) (body : method.code = some code)
    (listed : entry ∈ code.exceptionTable) (catches : entry.catchType = some name) :
    RefersTo file name

/-- The references of a method are the classes that its instructions name and that it catches. -/
theorem ClassFile.mem_methodReferences {file : ClassFile} {method : Method}
    {references : List ClassName} {name : ClassName}
    (collected : file.methodReferences method = .ok references) :
    name ∈ references ↔ ∃ code, method.code = some code ∧
      ((∃ instructions, file.instructionsOf code = .ok instructions ∧ ∃ placed ∈ instructions,
          ∃ named, placed.instruction.namedClass? = some named ∧
            named.elementClass? = some name) ∨
        ∃ entry ∈ code.exceptionTable, entry.catchType = some name) := by
  rw [ClassFile.methodReferences] at collected
  split at collected
  next none =>
    cases collected
    simp [none]
  next code body =>
    obtain ⟨instructions, decoded, same⟩ := bind_eq_ok.mp collected
    rw [during_eq_ok] at decoded
    cases same
    simp [body, decoded, Instruction.reference?, Option.bind_eq_some_iff]

/-- The list of references has exactly the classes that the class refers to. -/
theorem ClassFile.mem_references {file : ClassFile} {references : List ClassName}
    {name : ClassName} (collected : file.references = .ok references) :
    name ∈ references ↔ file.RefersTo name := by
  obtain ⟨methods, computed, same⟩ := bind_eq_ok.mp collected
  cases same
  have related := mapM_eq_ok.mp computed
  simp only [List.mem_append, Option.mem_toList, List.mem_flatten]
  constructor
  · rintro ((above | listed) | ⟨found, here, listed⟩)
    · exact .super above
    · exact .interface listed
    · obtain ⟨method, declared, references⟩ := exists_of_forall₂_right related here
      obtain ⟨code, body, ⟨instructions, decoded, placed, present, named, names, elements⟩ |
        ⟨entry, entered, catches⟩⟩ := (mem_methodReferences references).mp listed
      · exact .operand declared body decoded present (Instruction.names_iff.mpr names) elements
      · exact .caught declared body entered catches
  · have within {method : Method} (declared : method ∈ file.methods)
        (held : ∀ {list}, file.methodReferences method = .ok list → name ∈ list) :
        ∃ list ∈ methods, name ∈ list := by
      obtain ⟨place, here⟩ := List.mem_iff_getElem?.mp declared
      obtain ⟨list, there, references⟩ := getElem?_of_mapM_eq_ok computed here
      exact ⟨list, List.mem_of_getElem? there, held references⟩
    intro refers
    cases refers with
    | super above => exact .inl (.inl above)
    | interface listed => exact .inl (.inr listed)
    | operand declared body decoded present names elements =>
      exact .inr (within declared fun references => (mem_methodReferences references).mpr
        ⟨_, body, .inl ⟨_, decoded, _, present, _, Instruction.names_iff.mp names, elements⟩⟩)
    | caught declared body entered catches =>
      exact .inr (within declared fun references => (mem_methodReferences references).mpr
        ⟨_, body, .inr ⟨_, entered, catches⟩⟩)

namespace Reachability

variable {lookup : Lookup} {entries provided : List ClassName} {name other : ClassName}
  {file : ClassFile}

/-! ## What classes need -/

/-- A class is found by its name. -/
def Loads (lookup : Lookup) (name : ClassName) (file : ClassFile) : Prop :=
  ∃ bytes, lookup name = .ok (some bytes) ∧ ClassFile.parse bytes = .ok file ∧ file.name = name

/-- A set has the entries and, with a class that is not provided, all that its file refers to. -/
structure IsClosed (lookup : Lookup) (entries provided : List ClassName) (names : Set ClassName) :
    Prop where
  entry : ∀ name ∈ entries, name ∈ names
  reference : ∀ name ∈ names, name ∉ provided → ∀ file, Loads lookup name file →
    ∀ other, file.RefersTo other → other ∈ names

/-- What is to be looked at after a name, in order: nothing if it is provided, and else the
references of its class. -/
inductive Expands (lookup : Lookup) (provided : List ClassName) (name : ClassName) :
    List ClassName → Prop where
  | provided (here : name ∈ provided) : Expands lookup provided name []
  | loaded {file : ClassFile} {references : List ClassName} (missing : name ∉ provided)
    (loads : Loads lookup name file) (collected : file.references = .ok references) :
    Expands lookup provided name references

/-- A name is an entry, or one of some names leads to it. -/
def Arises (lookup : Lookup) (entries provided names : List ClassName) (name : ClassName) : Prop :=
  name ∈ entries ∨
    ∃ other ∈ names, ∃ references, Expands lookup provided other references ∧ name ∈ references

/-- Names in the order in which they are first come across: the entries, and then what each of the
names leads to, one after the other. -/
structure BreadthFirst (lookup : Lookup) (entries provided walk : List ClassName) : Prop where
  order : ∃ expansions, List.Forall₂ (Expands lookup provided) walk expansions ∧
    walk = (entries ++ expansions.flatten).eraseDups
  arises : ∀ front name rest, walk = front ++ name :: rest →
    Arises lookup entries provided front name

/-- The result of a search is the closure of the entries. -/
structure IsClosure (lookup : Lookup) (entries provided : List ClassName) (reach : Reachability) :
    Prop where
  least : IsLeast {names | IsClosed lookup entries provided names}
    {name | name ∈ reach.classes.names ∨ name ∈ reach.provided}
  provided_mem : ∀ name ∈ reach.provided, name ∈ provided
  classes_notMem : ∀ name ∈ reach.classes.names, name ∉ provided
  once : (reach.classes.names ++ reach.provided).Nodup
  loaded : ∀ file ∈ reach.classes.files, Loads lookup file.name file
  walk : ∃ walk, BreadthFirst lookup entries provided walk ∧
    reach.classes.names = walk.filter (· ∉ provided) ∧
    reach.provided = walk.filter (· ∈ provided)

theorem Loads.unique {file' : ClassFile} (loads : Loads lookup name file)
    (loads' : Loads lookup name file') : file = file' := by
  obtain ⟨bytes, found, parsed, _⟩ := loads
  obtain ⟨bytes', found', parsed', _⟩ := loads'
  cases found.symm.trans found'
  exact Except.ok.inj (parsed.symm.trans parsed')

theorem Loads.name_eq (loads : Loads lookup name file) : file.name = name := by
  obtain ⟨_, _, _, named⟩ := loads
  exact named

theorem loadClass_eq_ok {discovery : Discovery} :
    loadClass lookup discovery = .ok file ↔ Loads lookup discovery.name file := by
  have reads (bytes : List UInt8) : readClass discovery.name bytes = .ok file ↔
      ClassFile.parse bytes = .ok file ∧ file.name = discovery.name := by
    rw [readClass, bind_eq_ok]
    constructor
    · rintro ⟨found, parsed, checked⟩
      split at checked
      next same =>
        cases checked
        exact ⟨during_eq_ok.mp parsed, same⟩
      · cases checked
    · rintro ⟨parsed, same⟩
      exact ⟨file, during_eq_ok.mpr parsed, if_pos same⟩
  rw [loadClass, bind_eq_ok]
  constructor
  · rintro ⟨_ | bytes, found, loaded⟩
    · cases loaded
    · exact ⟨bytes, found, (reads bytes).mp loaded⟩
  · rintro ⟨bytes, found, parsed⟩
    exact ⟨some bytes, found, (reads bytes).mpr parsed⟩

/-- What a member of a closed set leads to belongs to the set as well. -/
theorem Expands.mem_of_isClosed {references : List ClassName} {names : Set ClassName}
    (expands : Expands lookup provided name references)
    (closed : IsClosed lookup entries provided names) (here : name ∈ names)
    (listed : other ∈ references) : other ∈ names := by
  cases expands with
  | provided => cases listed
  | loaded missing loads collected =>
    exact closed.reference name here missing _ loads other
      ((ClassFile.mem_references collected).mp listed)

/-- A class that is not provided leads to everything that it refers to. -/
theorem Expands.mem_of_refersTo {references : List ClassName}
    (expands : Expands lookup provided name references) (missing : name ∉ provided)
    (loads : Loads lookup name file) (refers : file.RefersTo other) : other ∈ references := by
  cases expands with
  | provided here => exact absurd here missing
  | loaded _ loads' collected =>
    cases loads.unique loads'
    exact (ClassFile.mem_references collected).mpr refers

theorem Arises.mem_of_isClosed {front : List ClassName} {names : Set ClassName}
    (arises : Arises lookup entries provided front name)
    (closed : IsClosed lookup entries provided names) (before : ∀ name ∈ front, name ∈ names) :
    name ∈ names := by
  rcases arises with entered | ⟨other, here, _, expands, listed⟩
  · exact closed.entry name entered
  · exact expands.mem_of_isClosed closed (before other here) listed

/-- If every name arises from those before it, all of them belong to any closed set. -/
theorem mem_of_arises {walk : List ClassName} {names : Set ClassName}
    (arises : ∀ front name rest, walk = front ++ name :: rest →
      Arises lookup entries provided front name)
    (closed : IsClosed lookup entries provided names) : ∀ name ∈ walk, name ∈ names := by
  have before (front : List ClassName) : ∀ rest, walk = front ++ rest →
      ∀ name ∈ front, name ∈ names := by
    induction front using List.reverseRecOn with
    | nil => simp
    | append_singleton front last ih =>
      intro rest whole
      rw [List.append_assoc, List.singleton_append] at whole
      have earlier := ih (last :: rest) whole
      refine List.forall_mem_append.mpr ⟨earlier, List.forall_mem_singleton.mpr ?_⟩
      exact (arises front last rest whole).mem_of_isClosed closed earlier
  exact before walk [] (List.append_nil walk).symm

end Reachability

end Bytescript
