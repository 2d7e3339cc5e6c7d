import Bytescript.Proofs.Classes.Parents
import Bytescript.Proofs.Script.Escape
import Bytescript.Proofs.Script.Label

/-!
# Properties of instance fields

All fields of an object live in one place, those that its class declares and those of the super
classes.  A field that has the name of a field above it gets the depth of its class behind its
name, and classes of one chain have different depths.

But a dollar sign and digits may also be part of a name.  So there is one way in which two fields
can share a property: one has the name of a field above it, the other one has not, and is named
like the first one with the depth of its class behind the name.
-/

set_option autoImplicit false

namespace Bytescript.ClassTable

open Script

variable {table : ClassTable} {owner top : ClassName} {one other : ClassFile}
  {field field' : String}

/-- A class above declares an instance field of the same name. -/
def Shadows (table : ClassTable) (owner : ClassName) (field : String) : Prop :=
  ∃ file ∈ (table.ancestry owner).tail, declaresInstanceField file field = true

/-- A class, or a known one above it, declares an instance field. -/
def HasField (table : ClassTable) (top : ClassName) (owner : ClassFile) (field : String) : Prop :=
  owner ∈ table.ancestry top ∧ declaresInstanceField owner field = true

/-- The name of a field with the depth of its class behind it. -/
def deepName (table : ClassTable) (owner : ClassName) (field : String) : String :=
  field ++ "$" ++ toString (table.depth owner)

/-- A field is named like another one that has the name of a field above it, with the depth of the
class of that one behind the name. -/
def IsMistakenFor (table : ClassTable) (owner' : ClassName) (field' : String)
    (owner : ClassName) (field : String) : Prop :=
  Shadows table owner field ∧ ¬ Shadows table owner' field' ∧ field' = table.deepName owner field

/-! ## Names before they are escaped -/

/-- The name that a field is stored under, before it is escaped. -/
noncomputable def storedName (table : ClassTable) (owner : ClassName) (field : String) : String :=
  open Classical in if Shadows table owner field then table.deepName owner field else field

theorem storedName_of_shadows (shadows : Shadows table owner field) :
    table.storedName owner field = table.deepName owner field :=
  if_pos shadows

theorem storedName_of_not_shadows (single : ¬ Shadows table owner field) :
    table.storedName owner field = field :=
  if_neg single

theorem isDigit_of_mem_toString {number : Nat} {char : Char}
    (member : char ∈ (toString number).toList) : char.isDigit = true := by
  rw [Nat.toString_eq_ofList_toDigits, String.toList_ofList] at member
  exact Nat.isDigit_of_mem_toDigits (by decide) (by decide) member

theorem toList_deepName (table : ClassTable) (owner : ClassName) (field : String) :
    (table.deepName owner field).toList =
      field.toList ++ '$' :: (toString (table.depth owner)).toList := by
  rw [deepName, String.toList_append, String.toList_append, List.append_assoc]
  rfl

/-- The depth behind a name is not changed by escaping. -/
theorem escapeName_deepName (table : ClassTable) (owner : ClassName) (field : String) :
    escapeName (table.deepName owner field).toList =
      escapeName field.toList ++ '$' :: (toString (table.depth owner)).toList := by
  rw [toList_deepName, escapeName_append]
  congr 1
  refine escapeName_of_plain (List.forall_mem_cons.mpr ⟨rfl, fun char member => ?_⟩)
  simp [isPlain, Char.isAlphanum, isDigit_of_mem_toString member]

/-- The property of a field is its stored name, escaped. -/
theorem instanceProperty_eq (table : ClassTable) (owner : ClassName) (field : String) :
    table.instanceProperty owner field = fieldIdentifier (table.storedName owner field) := by
  by_cases shadows : Shadows table owner field
  · have found := List.any_eq_true.mpr shadows
    rw [storedName_of_shadows shadows, instanceProperty, if_pos found]
    apply String.toList_injective
    simp only [toList_fieldIdentifier, String.toList_append, escapeName_deepName,
      List.append_assoc]
    rfl
  · have missing := mt List.any_eq_true.mp shadows
    rw [storedName_of_not_shadows shadows, instanceProperty, if_neg missing]

theorem fieldIdentifier_inj (whole : '/' ∉ field.toList) (whole' : '/' ∉ field'.toList)
    (same : fieldIdentifier field = fieldIdentifier field') : field = field' := by
  have characters := List.append_cancel_left (String.ofList_injective same)
  exact String.toList_injective (escapeName_inj whole whole' characters)

theorem slash_notMem_storedName (whole : '/' ∉ field.toList) :
    '/' ∉ (table.storedName owner field).toList := by
  by_cases shadows : Shadows table owner field
  · rw [storedName_of_shadows shadows, toList_deepName, List.mem_append, List.mem_cons]
    rintro (front | sign | digit)
    · exact whole front
    · cases sign
    · cases isDigit_of_mem_toString digit
  · rwa [storedName_of_not_shadows shadows]

/-! ## Reading back -/

/-- What stands behind the last dollar sign is determined by the whole. -/
theorem append_dollar_inj {front front' back back' : List Char} (last : '$' ∉ back)
    (last' : '$' ∉ back') (same : front ++ '$' :: back = front' ++ '$' :: back') :
    front = front' ∧ back = back' := by
  have suffix : '$' :: back <:+ front' ++ '$' :: back' := ⟨front, same⟩
  have suffix' : '$' :: back' <:+ front' ++ '$' :: back' := ⟨front', rfl⟩
  have backs : '$' :: back = '$' :: back' := by
    rcases List.suffix_or_suffix_of_suffix suffix suffix' with inner | inner
    · rcases List.suffix_cons_iff.mp inner with equal | inside
      · exact equal
      · exact absurd (inside.subset List.mem_cons_self) last'
    · rcases List.suffix_cons_iff.mp inner with equal | inside
      · exact equal.symm
      · exact absurd (inside.subset List.mem_cons_self) last
  rw [backs] at same
  exact ⟨List.append_cancel_right same, (List.cons.inj backs).2⟩

/-- The name and the depth can be read back. -/
theorem deepName_inj {owner' : ClassName}
    (same : table.deepName owner field = table.deepName owner' field') :
    field = field' ∧ table.depth owner = table.depth owner' := by
  have digits (number : Nat) : '$' ∉ (toString number).toList := fun sign =>
    absurd (isDigit_of_mem_toString sign) (by decide)
  have characters := congrArg String.toList same
  rw [toList_deepName, toList_deepName] at characters
  obtain ⟨front, back⟩ := append_dollar_inj (digits _) (digits _) characters
  exact ⟨String.toList_injective front, toString_inj (String.toList_injective back)⟩

/-- Of two classes of a chain that declare the same field, one shadows it. -/
theorem shadows_or_shadows (acyclic : table.Acyclic) (has : HasField table top one field)
    (has' : HasField table top other field) (different : one ≠ other) :
    Shadows table one.name field ∨ Shadows table other.name field := by
  rcases above_or_above_of_mem_ancestry acyclic has.1 has'.1 with equal | above | below
  · exact absurd equal different
  · exact .inl ⟨other, above, has'.2⟩
  · exact .inr ⟨one, below, has.2⟩

/-! ## Fields that share a property -/

/-- **Two instance fields of an object share a property only if one is mistaken for the other.**
They are different fields of a class and its super classes, and no class stands above itself. -/
theorem instanceProperty_eq_iff (acyclic : table.Acyclic) (has : HasField table top one field)
    (has' : HasField table top other field') (whole : '/' ∉ field.toList)
    (whole' : '/' ∉ field'.toList) (different : (one.name, field) ≠ (other.name, field')) :
    table.instanceProperty one.name field = table.instanceProperty other.name field' ↔
      IsMistakenFor table one.name field other.name field' ∨
        IsMistakenFor table other.name field' one.name field := by
  have stored : table.instanceProperty one.name field = table.instanceProperty other.name field' ↔
      table.storedName one.name field = table.storedName other.name field' := by
    rw [instanceProperty_eq, instanceProperty_eq]
    exact ⟨fieldIdentifier_inj (slash_notMem_storedName whole) (slash_notMem_storedName whole'),
      congrArg _⟩
  rw [stored]
  by_cases shadows : Shadows table one.name field <;>
    by_cases shadows' : Shadows table other.name field'
  · -- The depths behind the names tell the classes apart.
    rw [storedName_of_shadows shadows, storedName_of_shadows shadows']
    refine iff_of_false (fun same => ?_) ?_
    · obtain ⟨rfl, depths⟩ := deepName_inj same
      exact different (by rw [eq_of_depth_eq acyclic has.1 has'.1 depths])
    · rintro (⟨_, single, _⟩ | ⟨_, single, _⟩)
      · exact single shadows
      · exact single shadows'
  · rw [storedName_of_shadows shadows, storedName_of_not_shadows shadows']
    refine ⟨fun same => .inr ⟨shadows, shadows', same.symm⟩, ?_⟩
    rintro (⟨deep, _, _⟩ | ⟨_, _, named⟩)
    · exact absurd deep shadows'
    · exact named.symm
  · rw [storedName_of_not_shadows shadows, storedName_of_shadows shadows']
    refine ⟨fun same => .inl ⟨shadows', shadows, same⟩, ?_⟩
    rintro (⟨_, _, named⟩ | ⟨deep, _, _⟩)
    · exact named
    · exact absurd deep shadows
  · -- Two fields of one name would shadow each other.
    rw [storedName_of_not_shadows shadows, storedName_of_not_shadows shadows']
    refine iff_of_false (fun same => ?_) ?_
    · subst same
      have classes : one ≠ other := fun equal => different (by rw [equal])
      rcases shadows_or_shadows acyclic has has' classes with deep | deep
      · exact shadows deep
      · exact shadows' deep
    · rintro (⟨deep, _, _⟩ | ⟨deep, _, _⟩)
      · exact shadows' deep
      · exact shadows deep

/-! ## A field that looks like a shadowing one -/

/-- A class that declares instance fields. -/
def fieldsClass (name superClass : String) (fields : List String) : ClassFile where
  version := ⟨52, 0⟩
  pool := ⟨#[]⟩
  access := .ofFlags 0x21
  name := ⟨name⟩
  superClass := some ⟨superClass⟩
  interfaces := []
  fields := fields.map fun field => {
    access := .ofFlags 0
    name := field
    descriptor := "I"
    constant := none
    annotations := .empty }
  methods := []
  sourceFile := none
  annotations := .empty

/-- The class `A`, whose field is shadowed in `B`. -/
def shadowedClass : ClassFile := fieldsClass "A" "java/lang/Object" ["x"]

/-- The class `B`, which shadows the field of `A` and has one that looks like it. -/
def shadowingClass : ClassFile := fieldsClass "B" "A" ["x", "x$2"]

/-- Both classes. -/
def shadowing : ClassTable := .ofList [shadowedClass, shadowingClass]

/-- The depth falls on the way up. -/
theorem shadowing_acyclic : shadowing.Acyclic :=
  (isFounded_of_falls shadowing.depth (by decide +kernel)).acyclic

theorem ancestry_shadowing : shadowing.ancestry ⟨"B"⟩ = [shadowingClass, shadowedClass] := rfl

theorem hasField_shadowed : HasField shadowing ⟨"B"⟩ shadowedClass "x" :=
  ⟨by simp [ancestry_shadowing], by decide⟩

theorem hasField_shadowing : HasField shadowing ⟨"B"⟩ shadowingClass "x" :=
  ⟨by simp [ancestry_shadowing], by decide⟩

/-- The two fields called `x` are kept apart. -/
theorem instanceProperty_shadowing_eq_iff :
    (shadowing.instanceProperty ⟨"A"⟩ "x" = shadowing.instanceProperty ⟨"B"⟩ "x" ↔
      IsMistakenFor shadowing ⟨"A"⟩ "x" ⟨"B"⟩ "x" ∨ IsMistakenFor shadowing ⟨"B"⟩ "x" ⟨"A"⟩ "x") ∧
    shadowing.instanceProperty ⟨"A"⟩ "x" ≠ shadowing.instanceProperty ⟨"B"⟩ "x" :=
  ⟨instanceProperty_eq_iff shadowing_acyclic hasField_shadowed hasField_shadowing (by decide)
    (by decide) (by decide), by decide +kernel⟩

/-- Different fields of `B`, and one property for both. -/
theorem instanceProperty_shadowing_clash :
    shadowing.Acyclic ∧
      (∀ file ∈ shadowing.files, (file.fields.map Field.name).Nodup) ∧
      HasField shadowing ⟨"B"⟩ shadowingClass "x" ∧
      HasField shadowing ⟨"B"⟩ shadowingClass "x$2" ∧
      shadowing.instanceProperty ⟨"B"⟩ "x" = "fld_x$2" ∧
      shadowing.instanceProperty ⟨"B"⟩ "x$2" = "fld_x$2" :=
  ⟨shadowing_acyclic, by decide, hasField_shadowing, ⟨by simp [ancestry_shadowing], by decide⟩,
    by decide +kernel, by decide +kernel⟩

end Bytescript.ClassTable
