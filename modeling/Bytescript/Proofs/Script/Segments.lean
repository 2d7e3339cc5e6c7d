import Bytescript.Proofs.Script.Names

/-!
# Names of classes

The constructor function of a class is called like the class, with an underscore for each slash.
Two classes may then share a constructor function only if a segment of a name begins with a digit
that goes on with an escape behind the underscore, as the second one of `a/000e4` does.
-/

set_option autoImplicit false

namespace Bytescript.Script

open Support.Mention (isNameChar)

/-- No segment of a name, which are the parts between its slashes, begins with a character of a
kind. -/
def SegmentsAvoid (kind : Char → Bool) (name : List Char) : Prop :=
  ∀ segment ∈ name.splitOn '/', segment.head?.any kind = false

instance (kind : Char → Bool) (name : List Char) : Decidable (SegmentsAvoid kind name) :=
  inferInstanceAs (Decidable (∀ segment ∈ name.splitOn '/', _))

/-- The digits that go on with an escape are some of the digits. -/
theorem SegmentsAvoid.of_isDigit {name : List Char} (avoid : SegmentsAvoid Char.isDigit name) :
    SegmentsAvoid isEscapeDigit name := by
  intro segment listed
  have other := avoid segment listed
  have digits (first : Char) : isEscapeDigit first = true → first.isDigit = true := by
    simp only [isEscapeDigit, Bool.or_eq_true, decide_eq_true_eq]
    rintro (((rfl | rfl) | rfl) | rfl) <;> rfl
  cases segment with
  | nil => rfl
  | cons first rest =>
    exact Bool.eq_false_iff.mpr fun digit => Bool.eq_false_iff.mp other (digits first digit)

/-- What comes right behind a slash begins a segment, or is another slash. -/
theorem SegmentsAvoid.behind_slash {kind : Char → Bool} {name front back : List Char} {next : Char}
    (avoid : SegmentsAvoid kind name) (parts : name = front ++ '/' :: next :: back)
    (other : next ≠ '/') : kind next = false := by
  obtain ⟨segment, others, split⟩ := List.exists_cons_of_ne_nil (List.splitOn_ne_nil '/' back)
  have begins : (next :: back).splitOn '/' = (next :: segment) :: others := by
    rw [List.splitOn_cons_eq_if_modifyHead, split, if_neg (by simpa using other),
      List.modifyHead_cons]
  have listed : next :: segment ∈ name.splitOn '/' := by
    rw [parts, List.splitOn_append_cons_self, begins]
    exact List.mem_append_right _ List.mem_cons_self
  exact avoid _ listed

/-- If no segment begins with such a digit, no slash looks like the beginning of an escape. -/
theorem SegmentsAvoid.keepsSlashes {name : List Char} (avoid : SegmentsAvoid isEscapeDigit name) :
    KeepsSlashes name := by
  refine List.isChain_iff_forall_rel_of_append_cons_cons.mpr ?_
  rintro char next front back parts rfl
  by_cases slash : next = '/'
  · subst slash
    rfl
  · exact avoid.behind_slash parts slash

/-- **Classes with different names have different constructor functions, unless a segment of a name
begins with a digit up to three.**  The names of constructor functions consist of letters, digits,
underscores and dollar signs. -/
theorem classIdentifier_eq_iff :
    (∀ one other : ClassName, SegmentsAvoid isEscapeDigit one.text.toList →
      SegmentsAvoid isEscapeDigit other.text.toList →
      (classIdentifier one = classIdentifier other ↔ one = other)) ∧
    ∀ name : ClassName, ∀ char ∈ (classIdentifier name).toList, isNameChar char = true := by
  refine ⟨fun one other avoid avoid' => ⟨fun same => ?_, congrArg classIdentifier⟩,
    fun name char => isNameChar_classIdentifier⟩
  have escaped : escapeName one.text.toList = escapeName other.text.toList :=
    String.ofList_injective same
  have characters := escapeName_inj_of_keepsSlashes avoid.keepsSlashes avoid'.keepsSlashes escaped
  exact congrArg ClassName.mk (String.toList_injective characters)

/-- An underscore behind a slash is told from one before it. -/
theorem classIdentifier_underscore_ne :
    SegmentsAvoid isEscapeDigit "a/_/9".toList ∧ SegmentsAvoid isEscapeDigit "a_//9".toList ∧
      classIdentifier ⟨"a/_/9"⟩ ≠ classIdentifier ⟨"a_//9"⟩ := by
  have avoid : SegmentsAvoid isEscapeDigit "a/_/9".toList := by decide
  have avoid' : SegmentsAvoid isEscapeDigit "a_//9".toList := by decide
  have distinct := (classIdentifier_eq_iff.1 ⟨"a/_/9"⟩ ⟨"a_//9"⟩ avoid avoid').not
  exact ⟨avoid, avoid', distinct.mpr (by decide)⟩

/-- A digit behind a slash may look like the rest of an escape. -/
example : classIdentifier ⟨"a/000e4"⟩ = classIdentifier ⟨"aä"⟩ := by decide

end Bytescript.Script
