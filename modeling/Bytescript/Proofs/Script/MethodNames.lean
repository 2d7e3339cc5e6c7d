import Bytescript.Proofs.Script.Names

/-!
# Names of methods

The name of a method is escaped, but the two special names are replaced by words.  Methods of one
type are then told apart by their names, with one exception: a method may be named by such a word
itself, and shares it with the constructor or the static initializer.
-/

set_option autoImplicit false

namespace Bytescript.Script

variable {name other : String}

/-! ## Words -/

/-- The signs that have a meaning in descriptors and in special names. -/
def isSign (char : Char) : Bool := ['.', ';', '[', '/', '<', '>'].contains char

/-- The names that methods may have in a class file: the two special ones, and those that are not
empty and hold none of the signs. -/
def IsMethodName (name : String) : Prop :=
  name = constructorName ∨ name = initializerName ∨
    (name ≠ "" ∧ name.toList.any isSign = false)

instance (name : String) : Decidable (IsMethodName name) :=
  inferInstanceAs (Decidable (_ ∨ _ ∨ _))

/-- The first name is special, and the second one is the word that stands for it. -/
def IsSpokenAs (special word : String) : Prop :=
  (special = constructorName ∧ word = "cons") ∨ (special = initializerName ∧ word = "clinit")

instance (special word : String) : Decidable (IsSpokenAs special word) :=
  inferInstanceAs (Decidable (_ ∨ _))

/-- Different names share a word only if it stands for one of them and is the other one. -/
theorem wordOf_eq_iff :
    wordOf name = wordOf other ↔ name = other ∨ IsSpokenAs name other ∨ IsSpokenAs other name := by
  simp only [wordOf, IsSpokenAs, constructorName, initializerName]
  grind

theorem IsMethodName.whole (legal : IsMethodName name) : '/' ∉ (wordOf name).toList := by
  rw [wordOf]
  split
  · decide
  split
  · decide
  next ctor initializer =>
    rcases legal with special | special | ⟨_, legal⟩
    · exact absurd special ctor
    · exact absurd special initializer
    · exact fun slash => List.any_eq_false.mp legal '/' slash (by decide)

theorem methodWord_eq_iff (legal : IsMethodName name) (legal' : IsMethodName other) :
    methodWord name = methodWord other ↔
      name = other ∨ IsSpokenAs name other ∨ IsSpokenAs other name := by
  rw [methodWord_eq, methodWord_eq, ← wordOf_eq_iff]
  refine ⟨fun same => String.toList_injective ?_, fun same => by rw [same]⟩
  exact escapeName_inj legal.whole legal'.whole same

/-! ## Methods of one type -/

/-- The types behind the names are the same, so they do not matter. -/
theorem methodProperty_eq_iff_methodWord_eq {type : MethodType} :
    methodProperty name type = methodProperty other type ↔ methodWord name = methodWord other := by
  rw [methodProperty, methodProperty, methodChars_eq, methodChars_eq, String.ofList_inj,
    List.append_left_inj]

theorem methodIdentifier_of_parse {descriptor : String} {type : MethodType}
    (valid : MethodType.parse descriptor = .ok type) :
    methodIdentifier name descriptor = .ok (methodProperty name type) := by
  rw [methodIdentifier, valid]
  rfl

theorem staticIdentifier_of_parse {owner : ClassName} {descriptor : String} {type : MethodType}
    (valid : MethodType.parse descriptor = .ok type) :
    staticIdentifier owner name descriptor = .ok (staticFunction owner name type) := by
  rw [staticIdentifier, valid]
  rfl

/-- **Methods of one type are told apart by their names, except for a special method and one that
is named by its word.**  Both the properties of instance methods and the global functions of the
static methods of one class are the same for no other names. -/
theorem methodIdentifier_eq_iff {descriptor : String} {type : MethodType}
    (legal : IsMethodName name) (legal' : IsMethodName other)
    (valid : MethodType.parse descriptor = .ok type) :
    ∃ property property',
      methodIdentifier name descriptor = .ok property ∧
      methodIdentifier other descriptor = .ok property' ∧
      (property = property' ↔ name = other ∨ IsSpokenAs name other ∨ IsSpokenAs other name) ∧
      ∀ owner : ClassName,
        staticIdentifier owner name descriptor = staticIdentifier owner other descriptor ↔
          name = other ∨ IsSpokenAs name other ∨ IsSpokenAs other name := by
  have property : methodProperty name type = methodProperty other type ↔
      name = other ∨ IsSpokenAs name other ∨ IsSpokenAs other name :=
    methodProperty_eq_iff_methodWord_eq.trans (methodWord_eq_iff legal legal')
  refine ⟨_, _, methodIdentifier_of_parse valid, methodIdentifier_of_parse valid, property,
    fun owner => ?_⟩
  rw [staticIdentifier_of_parse valid, staticIdentifier_of_parse valid, Except.ok.injEq,
    staticFunction_eq_iff, property]

/-- A name is not taken for a word that it goes on from. -/
theorem methodIdentifier_initializer_ne :
    IsMethodName initializerName ∧ IsMethodName "clinit_" ∧
      MethodType.parse "(J)V" = .ok ⟨[.primitive .long], none⟩ ∧
      methodIdentifier initializerName "(J)V" ≠ methodIdentifier "clinit_" "(J)V" := by
  have legal : IsMethodName initializerName := by decide
  have legal' : IsMethodName "clinit_" := by decide
  have valid : MethodType.parse "(J)V" = .ok ⟨[.primitive .long], none⟩ := rfl
  obtain ⟨property, property', one, two, shared, _⟩ := methodIdentifier_eq_iff legal legal' valid
  refine ⟨legal, legal', valid, ?_⟩
  rw [one, two]
  exact fun same => absurd (shared.mp (Except.ok.inj same)) (by decide)

/-- A method that is named by the word for constructors is written as a constructor is. -/
theorem methodIdentifier_constructor_shared :
    IsMethodName constructorName ∧ IsMethodName "cons" ∧ constructorName ≠ "cons" ∧
      methodIdentifier constructorName "()V" = .ok "consV" ∧
      methodIdentifier "cons" "()V" = .ok "consV" :=
  ⟨by decide, by decide, by decide, rfl, rfl⟩

end Bytescript.Script
