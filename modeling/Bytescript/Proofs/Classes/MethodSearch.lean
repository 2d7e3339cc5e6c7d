import Bytescript.Proofs.Classes.Parents

/-!
# The search for a method

A method is searched for in a class and its super classes, and the search stops at the first class
that is not known.  So when it ends outside of the table, it has gone up through known classes that
do not declare the method.

Interfaces are not searched.  Whether one of them declares the method is a question of its own: the
interfaces of a class and of the classes above it count, and those that they extend.
-/

set_option autoImplicit false

namespace Bytescript

/-- A class declares a method of a name and a descriptor. -/
def ClassFile.DeclaresMethod (file : ClassFile) (name descriptor : String) : Prop :=
  ∃ method ∈ file.methods, method.name = name ∧ method.descriptor = descriptor

theorem ClassFile.isSome_method? {file : ClassFile} {name descriptor : String} :
    (file.method? name descriptor).isSome = true ↔ file.DeclaresMethod name descriptor := by
  simp [ClassFile.method?, ClassFile.DeclaresMethod]

namespace ClassTable

open Relation (ReflTransGen TransGen)
open StartOrder (Above mem_of_find?)

variable {table : ClassTable} {name origin last interface : ClassName}
  {method descriptor : String} {file : ClassFile} {fuel : Nat}

/-! ## The way up -/

/-- The search for a method goes on from a known class, which is not an interface and does not
declare the method, to its super class. -/
def PassesUp (table : ClassTable) (method descriptor : String) (name superClass : ClassName) :
    Prop :=
  ∃ file, table.find? name = some file ∧ ¬ file.DeclaresMethod method descriptor ∧
    file.access.isInterface = false ∧ file.superClass = some superClass

theorem findMethod_of_missing (missing : table.find? name = none) :
    table.findMethod origin method descriptor (fuel + 1) name = name := by
  rw [findMethod, missing]

theorem findMethod_of_passesUp (passes : table.PassesUp method descriptor name last) :
    table.findMethod origin method descriptor (fuel + 1) name =
      table.findMethod origin method descriptor fuel last := by
  obtain ⟨file, found, undeclared, isClass, above⟩ := passes
  have lacks : (file.method? method descriptor).isSome = false :=
    Bool.eq_false_iff.mpr (mt ClassFile.isSome_method?.mp undeclared)
  simp [findMethod, found, lacks, isClass, above]

/-- The search comes to the end of its way. -/
theorem findMethod_eq_of_passesUp (founded : table.IsFounded)
    (way : ReflTransGen (table.PassesUp method descriptor) name last)
    (missing : table.find? last = none) (enough : table.Suffices fuel name) :
    table.findMethod origin method descriptor (fuel + 1) name = last := by
  induction way using ReflTransGen.head_induction_on generalizing fuel with
  | refl => exact findMethod_of_missing missing
  | head passes _ ih =>
    rw [findMethod_of_passesUp passes]
    obtain ⟨file, found, _, _, above⟩ := passes
    obtain ⟨less, rfl, parents⟩ := enough.exists_succ founded found
    exact ih (parents _ (List.mem_append_right _ (Option.mem_toList.mpr above)))

/-- When the search began at a known class and ended at one that is not known, this is the end of
its way. -/
theorem passesUp_of_findMethod (known : table.find? origin ≠ none)
    (ended : table.findMethod origin method descriptor fuel name = last)
    (missing : table.find? last = none) :
    ReflTransGen (table.PassesUp method descriptor) name last := by
  fun_induction table.findMethod origin method descriptor fuel name with
  | case1 => exact absurd (ended ▸ missing) known
  | case2 => exact ended ▸ .refl
  | case3 fuel name file found => cases found.symm.trans (ended ▸ missing)
  | case4 => exact absurd (ended ▸ missing) known
  | case5 => exact absurd (ended ▸ missing) known
  | case6 fuel name file found undeclared isClass superClass above ih =>
    refine (ih ended).head ⟨file, found, mt ClassFile.isSome_method?.mpr undeclared, ?_, above⟩
    exact Bool.eq_false_iff.mpr isClass

/-- **The search for a method leaves the table at the class to which its way leads.** -/
theorem resolveMethod_eq_iff (founded : table.IsFounded) (missing : table.find? last = none) :
    table.resolveMethod name method descriptor = last ↔
      ReflTransGen (table.PassesUp method descriptor) name last := by
  constructor
  · intro ended
    by_cases known : table.find? name = none
    · rw [resolveMethod, findMethod_of_missing known] at ended
      exact ended ▸ .refl
    · exact passesUp_of_findMethod known ended missing
  · exact fun way => findMethod_eq_of_passesUp founded way missing (table.suffices_size name)

/-! ## Interfaces -/

/-- A known class declares a method. -/
def Declares (table : ClassTable) (method descriptor : String) (name : ClassName) : Prop :=
  ∃ file, table.find? name = some file ∧ file.DeclaresMethod method descriptor

/-- A known class has another one among its interfaces. -/
def Implements (table : ClassTable) (name interface : ClassName) : Prop :=
  ∃ file, table.find? name = some file ∧ interface ∈ file.interfaces

/-- An interface, or one that it extends, declares a method. -/
def Provides (table : ClassTable) (method descriptor : String) (interface : ClassName) : Prop :=
  ∃ declarer, ReflTransGen table.Implements interface declarer ∧
    table.Declares method descriptor declarer

/-- A class gets a method from an interface, its own or one of a class above it. -/
def InheritsMethod (table : ClassTable) (method descriptor : String) (name : ClassName) : Prop :=
  ∃ heir declarer, ReflTransGen (Above table) name heir ∧ TransGen table.Implements heir declarer ∧
    table.Declares method descriptor declarer

theorem not_provides_of_missing (missing : table.find? interface = none) :
    ¬ table.Provides method descriptor interface := by
  rintro ⟨declarer, extends', file, found, _⟩
  rcases extends'.cases_head with rfl | ⟨_, ⟨_, known, _⟩, _⟩
  · cases missing.symm.trans found
  · cases missing.symm.trans known

theorem provides_iff (found : table.find? interface = some file) :
    table.Provides method descriptor interface ↔ file.DeclaresMethod method descriptor ∨
      ∃ parent ∈ file.interfaces, table.Provides method descriptor parent := by
  constructor
  · rintro ⟨declarer, extends', declares⟩
    rcases extends'.cases_head with rfl | ⟨parent, ⟨same, known, listed⟩, later⟩
    · obtain ⟨same, known, declared⟩ := declares
      cases found.symm.trans known
      exact .inl declared
    · cases found.symm.trans known
      exact .inr ⟨parent, listed, declarer, later, declares⟩
  · rintro (declared | ⟨parent, listed, declarer, later, declares⟩)
    · exact ⟨interface, .refl, file, found, declared⟩
    · exact ⟨declarer, later.head ⟨file, found, listed⟩, declares⟩

theorem inheritsFrom_iff (founded : table.IsFounded) (enough : table.Suffices fuel interface) :
    table.inheritsFrom method descriptor fuel interface = true ↔
      table.Provides method descriptor interface := by
  induction fuel generalizing interface with
  | zero =>
    cases found : table.find? interface with
    | none => exact iff_of_false Bool.false_ne_true (not_provides_of_missing found)
    | some file =>
      obtain ⟨_, impossible, _⟩ := enough.exists_succ founded found
      cases impossible
  | succ fuel ih =>
    cases found : table.find? interface with
    | none =>
      rw [inheritsFrom, found]
      exact iff_of_false Bool.false_ne_true (not_provides_of_missing found)
    | some file =>
      obtain ⟨_, same, parents⟩ := enough.exists_succ founded found
      obtain rfl := Nat.succ.inj same
      have each : ∀ parent ∈ file.interfaces, (table.inheritsFrom method descriptor fuel parent ↔
          table.Provides method descriptor parent) :=
        fun parent listed => ih (parents parent (List.mem_append_left _ listed))
      rw [provides_iff found, inheritsFrom, found, Bool.or_eq_true, ClassFile.isSome_method?,
        List.any_eq_true]
      exact or_congr_right (exists_congr fun parent => and_congr_right (each parent))

/-- The ancestry of a class holds it and all that stands above it, as far as it is known. -/
theorem mem_ancestry_iff (acyclic : table.Acyclic) : file ∈ table.ancestry name ↔
    ReflTransGen (Above table) name file.name ∧ table.find? file.name = some file := by
  refine ⟨fun member => (above_of_mem_lineage member).symm, ?_⟩
  rintro ⟨chain, found⟩
  induction chain using ReflTransGen.head_induction_on with
  | refl =>
    obtain ⟨rest, begins⟩ := exists_ancestry_eq_cons acyclic found
    exact begins ▸ List.mem_cons_self
  | head above _ ih =>
    obtain ⟨first, known, up⟩ := above
    exact ancestry_of_super acyclic known up ▸ .tail _ ih

/-- The computed answer for interfaces is right. -/
theorem interfaceDeclares_iff (founded : table.IsFounded) :
    table.interfaceDeclares name method descriptor = true ↔
      table.InheritsMethod method descriptor name := by
  have each (interface : ClassName) :
      table.inheritsFrom method descriptor table.size interface = true ↔
        table.Provides method descriptor interface :=
    inheritsFrom_iff founded (table.suffices_size interface)
  simp only [interfaceDeclares, List.any_eq_true, each, mem_ancestry_iff founded.acyclic]
  constructor
  · rintro ⟨heir, ⟨chain, found⟩, interface, listed, declarer, extends', declares⟩
    exact ⟨heir.name, declarer, chain, .head' ⟨heir, found, listed⟩ extends', declares⟩
  · rintro ⟨heir, declarer, chain, extends', declares⟩
    obtain ⟨interface, ⟨file, found, listed⟩, later⟩ := TransGen.head'_iff.mp extends'
    obtain rfl := (mem_of_find? found).2
    exact ⟨file, ⟨chain, found⟩, interface, listed, declarer, later, declares⟩

end ClassTable

end Bytescript
