import Bytescript.Proofs.Classes.FieldProperty
import Bytescript.Proofs.Classes.FieldSearch
import Bytescript.Translation.Instruction

/-!
# The fields that instructions reach

An instruction names a field by a class, a name and a type, and all classes from there on that
declare a field of this name and this type are candidates.  The translation looks for the name
alone.  So it finds the class that the instruction means unless a class that comes before has
another field of the same name.
-/

set_option autoImplicit false

namespace Bytescript.Translation

open Script ClassTable

variable {site : Site} {field : MemberRef} {owner : ClassName} {passed : List ClassFile}

/-- The instructions on a field work on that of a class: they read and write it there if it is
static, and otherwise in the property that it has as a field of the class. -/
structure Site.Accesses (site : Site) (field : MemberRef) (owner : ClassName) : Prop where
  declarer : site.fieldOwner field = .ok owner
  getStatic : translate site (.getStatic field) = do
    let kind ← fieldKind field
    pushes kind (.staticField owner field.name)
  putStatic : translate site (.putStatic field) = do
    let value ← pop site (← fieldKind field)
    return .plain [.store (.staticField owner field.name) (.read value)]
  getField : translate site (.getField field) = do
    let kind ← fieldKind field
    let object ← pop site .reference
    pushes kind (.property (nonNull object) (site.classes.instanceProperty owner field.name))
  putField : translate site (.putField field) = do
    let value ← pop site (← fieldKind field)
    let object ← pop site .reference
    return .plain [.store (.property (nonNull object)
      (site.classes.instanceProperty owner field.name)) (.read value)]

/-- All instructions on a field agree on its class. -/
theorem Site.accesses_iff : site.Accesses field owner ↔ site.fieldOwner field = .ok owner := by
  refine ⟨Site.Accesses.declarer, fun declarer => ⟨declarer, ?_, ?_, ?_, ?_⟩⟩
  · simp only [translate, Translation.getStatic, Site.staticField, declarer]
    rfl
  · simp only [translate, Translation.putStatic, Site.staticField, declarer]
    rfl
  · simp only [translate, Translation.getField, Site.instanceField, declarer]
    rfl
  · simp only [translate, Translation.putField, Site.instanceField, declarer]
    rfl

/-- The search by the name decides where the field is, if it ends. -/
theorem Site.fieldOwner_of_search (founded : site.classes.IsFounded)
    (search : site.classes.Search (fun file => file.NamesField field.name) [field.owner] passed
      (some owner)) : site.fieldOwner field = .ok owner := by
  obtain ⟨file, found, _⟩ := search.exists_declares
  have known : site.classes.contains owner = true := Option.isSome_iff_exists.mpr ⟨file, found⟩
  simp only [Site.fieldOwner, search.resolveField_eq founded, Site.checkNotBuiltin, known]
  rfl

/-- **Instructions reach the field that they mean, unless a class has another one of its name.**
The search for a class that declares a field of the name and the type comes to an end, and no class
inherits from itself. -/
theorem Site.accesses_iff_of_search (founded : site.classes.IsFounded)
    (search : site.classes.Search (fun file => file.DeclaresField field.name field.descriptor)
      [field.owner] passed (some owner)) :
    site.Accesses field owner ↔ ∀ file ∈ passed, ¬ file.NamesField field.name := by
  have weaker (file : ClassFile) (declared : file.DeclaresField field.name field.descriptor) :
      file.NamesField field.name := declared.namesField
  rw [Site.accesses_iff]
  constructor
  · intro declarer file member named
    obtain ⟨earlier, listed, _, other⟩ := search.exists_of_passed weaker ⟨file, member, named⟩
    have same := declarer.symm.trans (Site.fieldOwner_of_search founded other)
    obtain ⟨last, found, declared⟩ := search.exists_declares
    obtain ⟨known, undeclared⟩ := search.find?_of_mem_passed listed
    rw [Except.ok.inj same, known, Option.some.injEq] at found
    exact undeclared (found ▸ declared)
  · exact fun plain => Site.fieldOwner_of_search founded (search.of_passed weaker plain)

/-! ## A field that changes its type -/

/-- The class `A`, with two fields. -/
def typedClass : ClassFile := fieldsClass "A" "java/lang/Object" ["x", "y"]

/-- The class `B` below `A`, which has a field of the same name and another type. -/
def retypedClass : ClassFile :=
  let file := fieldsClass "B" "A" ["x"]
  { file with fields := file.fields.map fun field => { field with descriptor := "J" } }

/-- Both classes. -/
def retyped : ClassTable := .ofList [typedClass, retypedClass]

/-- An instruction of a method of `B`. -/
def retypedSite : Site := ⟨⟨retyped, ⟨"B"⟩, "run"⟩, 1, 0xb4, 4⟩

theorem retyped_isFounded : retyped.IsFounded :=
  isFounded_of_falls (fun name => if name = ⟨"B"⟩ then 2 else if name = ⟨"A"⟩ then 1 else 0)
    (by decide +kernel)

/-- Both fields of `A` are those that `B` has, by their names and their type. -/
theorem search_retyped {name : String} (listed : name = "x" ∨ name = "y") :
    retyped.Search (fun file => file.DeclaresField name "I") [⟨"B"⟩] [retypedClass]
      (some ⟨"A"⟩) := by
  rcases listed with rfl | rfl
  · exact .above rfl (by decide) (.here rfl (by decide))
  · exact .above rfl (by decide) (.here rfl (by decide))

/-- The one that `B` does not have a name for is reached. -/
theorem accesses_retyped_inherited : retypedSite.Accesses ⟨⟨"B"⟩, "y", "I"⟩ ⟨"A"⟩ :=
  (Site.accesses_iff_of_search retyped_isFounded (search_retyped (.inr rfl))).mpr (by decide)

/-- In place of the other one, the field of `B` is taken. -/
theorem accesses_retyped_mistaken :
    retyped.IsFounded ∧
      retyped.Search (fun file => file.DeclaresField "x" "I") [⟨"B"⟩] [retypedClass]
        (some ⟨"A"⟩) ∧
      retypedSite.Accesses ⟨⟨"B"⟩, "x", "I"⟩ ⟨"B"⟩ ∧
      ¬ retypedSite.Accesses ⟨⟨"B"⟩, "x", "I"⟩ ⟨"A"⟩ := by
  have declarer : retypedSite.fieldOwner ⟨⟨"B"⟩, "x", "I"⟩ = .ok ⟨"B"⟩ := rfl
  refine ⟨retyped_isFounded, search_retyped (.inl rfl), Site.accesses_iff.mpr declarer, ?_⟩
  intro accesses
  exact absurd (Except.ok.inj (declarer.symm.trans accesses.declarer)) (by decide)

end Bytescript.Translation
