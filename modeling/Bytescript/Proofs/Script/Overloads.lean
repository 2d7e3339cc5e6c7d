import Bytescript.Proofs.ClassFile.Descriptor
import Bytescript.Proofs.Script.MethodNames
import Bytescript.Proofs.Script.Segments

/-!
# Methods with the same name

The types behind the name of a method are those of its descriptor, with the result in front and
without the semicolons.  A semicolon is the end of the name of a class, so two overloads share a
name if their descriptors differ only in where names of classes end.
-/

set_option autoImplicit false

namespace Bytescript

open Script

namespace FieldType

variable {type : FieldType}

/-- The descriptor of a type without the semicolon that ends the name of a class. -/
def openChars (type : FieldType) : List Char := type.chars.filter (· ≠ ';')

theorem openChars_object {name : ClassName} (whole : ';' ∉ name.text.toList) :
    (object name).openChars = 'L' :: name.text.toList := by
  have kept : ∀ char ∈ name.text.toList, ¬ char = ';' := fun _ member same =>
    whole (same ▸ member)
  simpa [openChars, chars] using kept

theorem openChars_array (element : FieldType) :
    (array element).openChars = '[' :: element.openChars := rfl

/-- The types behind the name of a method are escaped as names are. -/
theorem typeChars_eq (named : type.IsNamed) : typeChars type = escapeName type.openChars := by
  induction type with
  | primitive type => cases type <;> rfl
  | object name =>
    rw [openChars_object (named name rfl).2]
    rfl
  | array element ih =>
    rw [typeChars, ih named]
    rfl

/-- A type begins with a letter or a bracket, so it may come behind a slash. -/
theorem keepsSlashes_openChars (named : type.IsNamed)
    (avoid : ∀ name ∈ type.className?, SegmentsAvoid Char.isDigit name.text.toList) :
    KeepsSlashes ('/' :: type.openChars) := by
  induction type with
  | primitive type => cases type <;> exact .cons_cons (fun _ => rfl) (.singleton _)
  | object name =>
    rw [openChars_object (named name rfl).2]
    exact .cons_cons (fun _ => rfl)
      (List.IsChain.cons (avoid name rfl).of_isDigit.keepsSlashes nofun)
  | array element ih =>
    exact .cons_cons (fun _ => rfl) (List.IsChain.cons (ih named avoid).tail nofun)

/-- Types that may come behind a slash each may do so one after the other. -/
theorem keepsSlashes_flatMap_openChars {types : List FieldType}
    (each : ∀ type ∈ types, KeepsSlashes ('/' :: type.openChars)) :
    KeepsSlashes ('/' :: types.flatMap openChars) := by
  induction types with
  | nil => exact .singleton _
  | cons type types ih =>
    obtain ⟨here, later⟩ := List.forall_mem_cons.mp each
    exact here.append (ih later)

/-! ## Where the name of a class ends -/

/-- Only the name of a class has an end to leave out. -/
theorem chars_eq_openChars (named : type.IsNamed) :
    type.chars = type.openChars ++ if type.className?.isSome then [';'] else [] := by
  induction type with
  | primitive type => cases type <;> rfl
  | object name =>
    rw [openChars_object (named name rfl).2]
    rfl
  | array element ih =>
    rw [openChars_array, chars, ih named]
    rfl

/-- What stands for the name of a class does not begin with a type without one. -/
theorem isSome_className?_of_openChars {type type' : FieldType} {rest : List Char}
    (described : type.IsDescribable) (described' : type'.IsDescribable)
    (names : type.className?.isSome) (same : type.openChars = type'.openChars ++ rest) :
    type'.className?.isSome := by
  by_contra other
  have whole : type.chars ++ [] = type'.chars ++ (rest ++ [';']) := by
    rw [chars_eq_openChars described.named, chars_eq_openChars described'.named, if_pos names,
      if_neg other, same]
    simp
  have nothing := (chars_append_inj described described' whole).2
  simp at nothing

theorem openChars_ne_nil (type : FieldType) : type.openChars ≠ [] := by
  cases type with
  | primitive type => cases type <;> exact List.cons_ne_nil _ _
  | object name => exact List.cons_ne_nil _ _
  | array element => exact List.cons_ne_nil _ _

/-- None of the types but the last one names a class. -/
def NamesClassLast (types : List FieldType) : Prop :=
  ∀ type ∈ types.dropLast, type.className? = none

instance (types : List FieldType) : Decidable (NamesClassLast types) :=
  inferInstanceAs (Decidable (∀ type ∈ types.dropLast, _))

theorem NamesClassLast.tail {types : List FieldType} (last : NamesClassLast (type :: types)) :
    NamesClassLast types := by
  intro other member
  cases types with
  | nil => cases member
  | cons next types => exact last other (List.mem_cons_of_mem _ member)

/-- Nothing comes behind a type that names a class. -/
theorem NamesClassLast.eq_nil {types : List FieldType} (last : NamesClassLast (type :: types))
    (names : type.className?.isSome) : types = [] := by
  cases types with
  | nil => rfl
  | cons next types =>
    rw [last type List.mem_cons_self] at names
    cases names

/-- Types without their ends are told apart if at most the last one lacks its end. -/
theorem flatMap_openChars_inj {types types' : List FieldType}
    (described : ∀ type ∈ types, type.IsDescribable)
    (described' : ∀ type ∈ types', type.IsDescribable)
    (last : NamesClassLast types) (last' : NamesClassLast types')
    (same : types.flatMap openChars = types'.flatMap openChars) : types = types' := by
  induction types generalizing types' with
  | nil =>
    cases types' with
    | nil => rfl
    | cons type' types' =>
      exact absurd (List.append_eq_nil_iff.mp same.symm).1 type'.openChars_ne_nil
  | cons type types ih =>
    cases types' with
    | nil => exact absurd (List.append_eq_nil_iff.mp same).1 type.openChars_ne_nil
    | cons type' types' =>
      obtain ⟨here, later⟩ := List.forall_mem_cons.mp described
      obtain ⟨here', later'⟩ := List.forall_mem_cons.mp described'
      have ends := chars_eq_openChars here.named
      have ends' := chars_eq_openChars here'.named
      rw [List.flatMap_cons, List.flatMap_cons] at same
      by_cases names : type.className?.isSome
      · obtain rfl := last.eq_nil names
        rw [List.flatMap_nil, List.append_nil] at same
        have names' := isSome_className?_of_openChars here here' names same
        obtain rfl := last'.eq_nil names'
        rw [List.flatMap_nil, List.append_nil] at same
        have whole : type.chars ++ [] = type'.chars ++ [] := by
          rw [ends, ends', if_pos names, if_pos names', same]
        rw [(chars_append_inj here here' whole).1]
      · have names' : ¬ type'.className?.isSome := fun names' => by
          obtain rfl := last'.eq_nil names'
          rw [List.flatMap_nil, List.append_nil] at same
          exact names (isSome_className?_of_openChars here' here names' same.symm)
        rw [if_neg names, List.append_nil] at ends
        rw [if_neg names', List.append_nil] at ends'
        rw [← ends, ← ends'] at same
        obtain ⟨first, others⟩ := chars_append_inj here here' same
        rw [first, ih later later' last.tail last'.tail others]

end FieldType

namespace MethodType

variable {type type' : MethodType}

/-- The descriptors of the result and the parameters of a method, one after the other, without the
semicolons that end the names of classes. -/
def openChars (type : MethodType) : List Char :=
  (resultChars type.result ++ type.parameters.flatMap FieldType.chars).filter (· ≠ ';')

/-- The classes that are named in the descriptor of a method. -/
def classNames (type : MethodType) : List ClassName :=
  (type.result.toList ++ type.parameters).filterMap FieldType.className?

/-- No segment of a class that is named in the descriptor of a method begins with a digit. -/
def AvoidsDigits (type : MethodType) : Prop :=
  ∀ name ∈ type.classNames, SegmentsAvoid Char.isDigit name.text.toList

instance (type : MethodType) : Decidable type.AvoidsDigits :=
  inferInstanceAs (Decidable (∀ name ∈ type.classNames, _))

theorem openChars_eq (type : MethodType) :
    type.openChars = (resultChars type.result).filter (· ≠ ';')
      ++ type.parameters.flatMap FieldType.openChars := by
  rw [openChars, List.filter_append, List.filter_flatMap]
  rfl

/-- The types behind the name of a method are escaped as names are. -/
theorem typesChars_eq (described : type.IsDescribable) :
    typesChars type = escapeName type.openChars := by
  have parameters : type.parameters.flatMap typeChars =
      escapeName (type.parameters.flatMap FieldType.openChars) := by
    rw [escapeName, List.flatMap_assoc]
    exact List.flatMap_congr fun parameter member =>
      FieldType.typeChars_eq (described.parameters parameter member).named
  rw [openChars_eq, escapeName_append, ← parameters, typesChars, List.append_left_inj]
  split
  next result written =>
    rw [written]
    exact FieldType.typeChars_eq (described.result result written).named
  next nothing =>
    rw [nothing]
    rfl

theorem keepsSlashes_openChars (described : type.IsDescribable) (avoid : type.AvoidsDigits) :
    KeepsSlashes type.openChars := by
  have each : ∀ field ∈ type.result.toList ++ type.parameters, field.IsDescribable →
      KeepsSlashes ('/' :: field.openChars) := fun field member described =>
    FieldType.keepsSlashes_openChars described.named fun name named =>
      avoid name (List.mem_filterMap.mpr ⟨field, member, named⟩)
  have parameters : KeepsSlashes ('/' :: type.parameters.flatMap FieldType.openChars) :=
    FieldType.keepsSlashes_flatMap_openChars fun parameter member =>
      each parameter (List.mem_append_right _ member) (described.parameters parameter member)
  have result : KeepsSlashes ((resultChars type.result).filter (· ≠ ';')) := by
    cases written : type.result with
    | none => exact .singleton _
    | some result =>
      have member : result ∈ type.result.toList ++ type.parameters := by simp [written]
      exact (each result member (described.result result written)).tail
  rw [openChars_eq]
  exact result.append parameters

theorem typesChars_eq_iff (described : type.IsDescribable) (described' : type'.IsDescribable)
    (avoid : type.AvoidsDigits) (avoid' : type'.AvoidsDigits) :
    typesChars type = typesChars type' ↔ type.openChars = type'.openChars := by
  rw [typesChars_eq described, typesChars_eq described']
  exact ⟨escapeName_inj_of_keepsSlashes (keepsSlashes_openChars described avoid)
    (keepsSlashes_openChars described' avoid'), congrArg escapeName⟩

/-- Overloads with the same result are told apart if each of them names a class as its last
parameter at most. -/
theorem eq_of_openChars_eq (described : type.IsDescribable) (described' : type'.IsDescribable)
    (result : type.result = type'.result) (last : FieldType.NamesClassLast type.parameters)
    (last' : FieldType.NamesClassLast type'.parameters)
    (same : type.openChars = type'.openChars) : type = type' := by
  rw [openChars_eq, openChars_eq, result] at same
  have parameters := FieldType.flatMap_openChars_inj described.parameters described'.parameters
    last last' (List.append_cancel_left same)
  cases type
  cases type'
  simp_all

end MethodType

namespace Script

open MethodType FieldType

variable {name descriptor descriptor' : String} {type type' : MethodType}

/-- The name in front of the types is the same, so it does not matter. -/
theorem methodProperty_eq_iff_typesChars_eq :
    methodProperty name type = methodProperty name type' ↔ typesChars type = typesChars type' := by
  rw [methodProperty, methodProperty, methodChars_eq, methodChars_eq, String.ofList_inj,
    List.append_right_inj]

/-- **Overloads share a name if and only if their descriptors differ only in where names of classes
end.**  That takes a class with something behind it: overloads with the same result that name a
class as their last parameter at most are told apart.  Static methods of one class share their
global functions in the same way. -/
theorem overloads_eq_iff (name : String) (valid : MethodType.parse descriptor = .ok type)
    (valid' : MethodType.parse descriptor' = .ok type') (avoid : type.AvoidsDigits)
    (avoid' : type'.AvoidsDigits) :
    ∃ property property',
      methodIdentifier name descriptor = .ok property ∧
      methodIdentifier name descriptor' = .ok property' ∧
      (property = property' ↔ type.openChars = type'.openChars) ∧
      (type.result = type'.result → NamesClassLast type.parameters →
        NamesClassLast type'.parameters → (property = property' ↔ descriptor = descriptor')) ∧
      ∀ owner : ClassName,
        staticIdentifier owner name descriptor = staticIdentifier owner name descriptor' ↔
          type.openChars = type'.openChars := by
  obtain ⟨described, text⟩ := MethodType.parse_eq_ok.mp valid
  obtain ⟨described', text'⟩ := MethodType.parse_eq_ok.mp valid'
  have property : methodProperty name type = methodProperty name type' ↔
      type.openChars = type'.openChars :=
    methodProperty_eq_iff_typesChars_eq.trans
      (typesChars_eq_iff described described' avoid avoid')
  refine ⟨_, _, methodIdentifier_of_parse valid, methodIdentifier_of_parse valid', property, ?_,
    fun owner => ?_⟩
  · intro result last last'
    rw [property]
    refine ⟨fun same => ?_, ?_⟩
    · rw [text, text', eq_of_openChars_eq described described' result last last' same]
    · rintro rfl
      rw [valid] at valid'
      rw [Except.ok.inj valid']
  · rw [staticIdentifier_of_parse valid, staticIdentifier_of_parse valid', Except.ok.injEq,
      staticFunction_eq_iff, property]

/-- The parameters of a method that takes an array of objects and a long. -/
def objectsAndLong : MethodType := ⟨[.array (.object ⟨"a/B"⟩), .primitive .long], none⟩

/-- The same parameters in the other order. -/
def longAndObjects : MethodType := ⟨[.primitive .long, .array (.object ⟨"a/B"⟩)], none⟩

/-- The order of the parameters is told although nothing stands between them. -/
theorem overloads_reordered_ne :
    MethodType.parse "([La/B;J)V" = .ok objectsAndLong ∧
      MethodType.parse "(J[La/B;)V" = .ok longAndObjects ∧
      objectsAndLong.AvoidsDigits ∧ longAndObjects.AvoidsDigits ∧
      methodIdentifier "put" "([La/B;J)V" ≠ methodIdentifier "put" "(J[La/B;)V" := by
  have valid : MethodType.parse "([La/B;J)V" = .ok objectsAndLong := rfl
  have valid' : MethodType.parse "(J[La/B;)V" = .ok longAndObjects := rfl
  have avoid : objectsAndLong.AvoidsDigits := by decide
  have avoid' : longAndObjects.AvoidsDigits := by decide
  obtain ⟨property, property', one, two, shared, _⟩ :=
    overloads_eq_iff "put" valid valid' avoid avoid'
  refine ⟨valid, valid', avoid, avoid', ?_⟩
  rw [one, two]
  exact fun same => absurd (shared.mp (Except.ok.inj same)) (by decide)

/-- A parameter may be taken for the end of the name of a class. -/
theorem overloads_classEnd_shared :
    MethodType.parse "(La;I)V" = .ok ⟨[.object ⟨"a"⟩, .primitive .int], none⟩ ∧
      MethodType.parse "(LaI;)V" = .ok ⟨[.object ⟨"aI"⟩], none⟩ ∧
      AvoidsDigits ⟨[.object ⟨"a"⟩, .primitive .int], none⟩ ∧
      AvoidsDigits ⟨[.object ⟨"aI"⟩], none⟩ ∧
      methodIdentifier "f" "(La;I)V" = .ok "fVLaI" ∧
      methodIdentifier "f" "(LaI;)V" = .ok "fVLaI" :=
  ⟨rfl, rfl, by decide, by decide, rfl, rfl⟩

end Script

end Bytescript
