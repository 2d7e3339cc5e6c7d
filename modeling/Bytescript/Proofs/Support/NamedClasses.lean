import Bytescript.Proofs.Support.Constructors

/-!
# Classes that the support library names

The text of the support library makes objects of some classes, throws and tests for them, calls
their constructor functions and gives methods to their prototypes.  It names their constructor
functions to do so.  Of the classes that it does not define itself, it only names the root class and
those that its functions use, which are written unless the program brings a class of that name.
Names that stand in the literals of the text are spelled otherwise and are only compared.
-/

set_option autoImplicit false

namespace Bytescript.Support

open Script Translation
open Mention (isNameChar words)

/-- A line names the constructor function of a class. -/
def NamesClass (line : String) (name : ClassName) : Prop :=
  (classIdentifier name).toList ∈ words line.toList

instance (line : String) (name : ClassName) : Decidable (NamesClass line name) :=
  inferInstanceAs (Decidable (_ ∈ _))

/-- The text of a feature may name a class that it does not define itself: the root class or one
that the functions of the library use, if the class belongs to a feature that this one depends
on. -/
structure Feature.ReliesOn (feature : Feature) (builtin : Builtin) : Prop where
  isUsed : builtin.isUsedBySupport = true ∨ builtin.name = .object
  included : builtin.feature ∈ feature.closure

variable {builtin other : Builtin} {feature : Feature} {line : String}

theorem not_namesClass (missing : '_' ∉ line.toList) (listed : builtin ∈ Builtin.all) :
    ¬ NamesClass line builtin.name := fun names =>
  missing (mem_of_mem_words names (Builtin.spelling_classIdentifier listed).1)

/-- The lines that are written out name only such classes. -/
theorem Feature.reliesOn_of_mem_texts (written : (feature, line) ∈ functionTexts ++ classTexts)
    (listed : builtin ∈ Builtin.all) (names : NamesClass line builtin.name) :
    feature.ReliesOn builtin := by
  obtain ⟨spellings, more, spelled, spelled', checked⟩ := exists_spellings
  obtain ⟨⟨other, chars⟩, member, same⟩ :=
    exists_of_forall₂_left (List.rel_append spelled spelled') written
  cases same with
  | line =>
    rw [NamesClass, String.toList_ofList] at names
    have word : (classIdentifier builtin.name).toList ∈
        (words chars).filter fun word => word.contains '_' :=
      List.mem_filter.mpr ⟨names, List.contains_iff_mem.mpr
        (Builtin.spelling_classIdentifier listed).1⟩
    have found := List.all_eq_true.mp (List.all_eq_true.mp
      (List.all_eq_true.mp checked.constructors _ member) _ word) builtin listed
    simp only [classIdentifier, String.toList_ofList, ne_eq, not_true_eq_false, decide_false,
      Bool.false_or, Bool.and_eq_true, Bool.or_eq_true, decide_eq_true_eq,
      List.contains_iff_mem] at found
    exact ⟨found.1, found.2⟩

namespace Builtin

/-! ## Classes without a text of their own -/

/-- The words with underscores in a text are of some kind. -/
def Underscored (kind : List Char → Prop) (chars : List Char) : Prop :=
  ∀ word ∈ words chars, '_' ∈ word → kind word

section Underscored

variable {kind : List Char → Prop} {chars front back : List Char}

theorem Underscored.of_notMem (missing : '_' ∉ chars) : Underscored kind chars :=
  fun _ listed inside => absurd (mem_of_mem_words listed inside) missing

theorem Underscored.append_cons {stop : Char} (ends : isNameChar stop = false)
    (before : Underscored kind front) (after : Underscored kind back) :
    Underscored kind (front ++ stop :: back) := by
  intro word listed inside
  rw [words_append_cons ends, List.mem_append] at listed
  exact listed.elim (before word · inside) (after word · inside)

theorem Underscored.identifier {name : ClassName}
    (holds : kind (classIdentifier name).toList) :
    Underscored kind (classIdentifier name).toList := by
  intro word listed _
  rw [words_of_name fun _ => isNameChar_classIdentifier, List.mem_singleton] at listed
  exact listed ▸ holds

/-- A text with the name of a class between two other signs. -/
theorem Underscored.around {name : ClassName} {stop stop' : Char} (ends : isNameChar stop = false)
    (ends' : isNameChar stop' = false) (missing : '_' ∉ front)
    (holds : kind (classIdentifier name).toList) (after : Underscored kind back) :
    Underscored kind (front ++ stop :: ((classIdentifier name).toList ++ stop' :: back)) :=
  (of_notMem missing).append_cons ends ((identifier holds).append_cons ends' after)

end Underscored

theorem underscore_notMem_text (listed : builtin ∈ all) : '_' ∉ builtin.name.text.toList := by
  intro underscore
  rcases isAlpha_or_slash listed underscore with letter | slash
  · cases letter
  · cases slash

theorem Underscored.constructor {kind : List Char → Prop} {name : ClassName}
    (holds : kind (classIdentifier name).toList) :
    Underscored kind (constructorStart name).toList := by
  have whole : (constructorStart name).toList = "function".toList
      ++ ' ' :: ((classIdentifier name).toList ++ '(' :: ") \x7b".toList) := by
    simp [constructorStart]
  rw [whole]
  exact .around (by decide) (by decide) (by decide) holds (.of_notMem (by decide))

/-- A class without a text of its own names itself and, if it is an exception, the class above
it. -/
theorem underscored_lines (listed : builtin ∈ all) (ownText : builtin.hasText = false)
    (written : line ∈ builtin.lines) :
    Underscored (fun word => word = (classIdentifier builtin.name).toList ∨
      builtin.isInterface = false ∧ word = (classIdentifier builtin.parent).toList)
      line.toList := by
  have missing := underscore_notMem_text listed
  have closing : '_' ∉ "\x7d".toList := by decide
  rw [hasText] at ownText
  rw [lines] at written
  split at written
  next same =>
    rw [same] at ownText
    cases ownText
  next =>
    simp only [List.mem_cons, List.not_mem_nil, or_false] at written
    rcases written with rfl | rfl | rfl
    · exact .constructor (.inl rfl)
    · exact .of_notMem closing
    · have whole : ("$vm.defineClass(" ++ classIdentifier builtin.name ++ ", \"" ++
          builtin.name.text ++ "\", null, [], true);").toList = "$vm.defineClass".toList
          ++ '(' :: ((classIdentifier builtin.name).toList
          ++ ',' :: (" \"" ++ builtin.name.text ++ "\", null, [], true);").toList) := by simp
      rw [whole]
      exact .around (by decide) (by decide) (by decide) (.inl rfl) (.of_notMem (by simp [missing]))
  next same =>
    have above : builtin.isInterface = false := by rw [isInterface, same]
    simp only [List.mem_cons, List.not_mem_nil, or_false] at written
    rcases written with rfl | rfl | rfl | rfl
    · exact .constructor (.inl rfl)
    · have whole : ("\t" ++ classIdentifier builtin.parent ++ ".call(this);").toList =
          [] ++ '\t' :: ((classIdentifier builtin.parent).toList
          ++ '.' :: "call(this);".toList) := by simp
      rw [← parent, whole]
      exact .around (by decide) (by decide) List.not_mem_nil (.inr ⟨above, rfl⟩)
        (.of_notMem (by decide))
    · exact .of_notMem closing
    · have whole : ("$vm.defineClass(" ++ classIdentifier builtin.name ++ ", \"" ++
          builtin.name.text ++ "\", " ++ classIdentifier builtin.parent
          ++ ", [], false);").toList = "$vm.defineClass".toList
          ++ '(' :: ((classIdentifier builtin.name).toList
          ++ ',' :: ((" \"" ++ builtin.name.text ++ "\",").toList
          ++ ' ' :: ((classIdentifier builtin.parent).toList
          ++ ',' :: " [], false);".toList))) := by simp
      rw [← parent, whole]
      exact .around (by decide) (by decide) (by decide) (.inl rfl)
        (.around (by decide) (by decide) (by simp [missing]) (.inr ⟨above, rfl⟩)
          (.of_notMem (by decide)))

/-- The functions of the library use every class above an exception. -/
theorem reliesOn_of_name_eq_parent (listed : builtin ∈ all) (ownText : builtin.hasText = false)
    (above : builtin.isInterface = false) (listed' : other ∈ all)
    (same : other.name = builtin.parent) : builtin.feature.ReliesOn other := by
  have all : ∀ builtin ∈ all, builtin.hasText = false → builtin.isInterface = false →
      ∀ other ∈ all, other.name = builtin.parent →
        other.isUsedBySupport = true ∧ other.feature ∈ builtin.feature.closure := by
    decide +kernel
  obtain ⟨used, included⟩ := all builtin listed ownText above other listed' same
  exact ⟨.inl used, included⟩

theorem mem_classTexts (listed : builtin ∈ all) (own : builtin.hasText = true)
    (written : line ∈ builtin.lines) : (builtin.feature, line) ∈ classTexts := by
  refine List.mem_flatMap.mpr ⟨builtin, listed, ?_⟩
  rw [hasText] at own
  rw [lines] at written
  split at own
  next same =>
    rw [same] at written
    exact List.mem_map_of_mem written
  next => cases own
  next => cases own

/-- What the text of a class names is the class itself, which is not that of strings then, or what
its feature relies on. -/
theorem eq_or_reliesOn_of_mem_lines (listed : builtin ∈ all) (written : line ∈ builtin.lines)
    (listed' : other ∈ all) (naming : NamesClass line other.name) :
    (other = builtin ∧ builtin.isString = false) ∨ builtin.feature.ReliesOn other := by
  cases own : builtin.hasText with
  | true =>
    have text := mem_classTexts listed own written
    exact .inr (Feature.reliesOn_of_mem_texts (List.mem_append_right _ text) listed' naming)
  | false =>
    have several := (spelling_classIdentifier listed').1
    rcases underscored_lines listed own written _ naming several with same | ⟨above, same⟩
    · have names := eq_name_of_classIdentifier_eq listed (String.toList_injective same)
      exact .inl ⟨eq_of_name_eq listed' listed names, isString_eq_false _ listed own⟩
    · obtain ⟨ancestor, listed'', same'⟩ := List.mem_map.mp (parent_mem_names listed)
      have names := eq_name_of_classIdentifier_eq listed''
        (String.toList_injective (same' ▸ same))
      exact .inr (reliesOn_of_name_eq_parent listed own above listed' (names.trans same'))

end Builtin

/-- The class of strings is neither the root class nor used by functions. -/
theorem Feature.ReliesOn.isString_eq_false (relies : feature.ReliesOn builtin)
    (listed : builtin ∈ Builtin.all) : builtin.isString = false := by
  have all : ∀ builtin ∈ Builtin.all, builtin.isUsedBySupport = true ∨ builtin.name = .object →
      builtin.isString = false := by
    decide
  exact all builtin listed relies.isUsed

/-! ## Sets of features -/

theorem Feature.reliesOn_of_mem_written {provided translated : ClassName → Bool}
    (written : line ∈ feature.written provided translated) (listed : builtin ∈ Builtin.all)
    (naming : NamesClass line builtin.name) :
    (builtin ∈ feature.builtins provided translated ∧ builtin.isString = false) ∨
      feature.ReliesOn builtin := by
  rw [Feature.written, List.cons_append, List.mem_cons, List.mem_append] at written
  rcases written with rfl | own | inClass
  · have missing : '_' ∉ ("// " ++ feature.heading).toList := by cases feature <;> decide
    exact absurd naming (not_namesClass missing listed)
  · exact .inr (reliesOn_of_mem_texts (List.mem_append_left _ (mem_functionTexts.mpr own)) listed
      naming)
  · obtain ⟨other, included, inside⟩ := List.mem_flatMap.mp inClass
    obtain ⟨listed', chosen⟩ := List.mem_filter.mp included
    rw [Bool.and_eq_true, decide_eq_true_eq] at chosen
    rcases Builtin.eq_or_reliesOn_of_mem_lines listed' inside listed naming with
      ⟨rfl, own⟩ | relies
    · exact .inl ⟨included, own⟩
    · exact .inr (chosen.1 ▸ relies)

namespace FeatureSet

variable {features : List Feature} {provided translated : ClassName → Bool}

/-- **Every builtin class that the text names has its constructor function in the text, or the
program brings it.** -/
theorem mem_constructed_or_translated
    (root : provided .object = true ∨ translated .object = true)
    (written : line ∈ (empty.insertAll features).lines provided translated)
    (listed : builtin ∈ Builtin.all) (naming : NamesClass line builtin.name) :
    builtin.name ∈ (empty.insertAll features).constructed provided translated ∨
      translated builtin.name = true := by
  have constructed (included : builtin ∈ (empty.insertAll features).builtins provided translated)
      (own : builtin.isString = false) :
      builtin.name ∈ (empty.insertAll features).constructed provided translated :=
    mem_constructed.mpr ⟨builtin, included, own, rfl⟩
  obtain ⟨feature, member, inside⟩ := List.mem_flatMap.mp written
  rcases Feature.reliesOn_of_mem_written inside listed naming with ⟨included, own⟩ | relies
  · exact .inl (constructed (List.mem_flatMap.mpr ⟨feature, member, included⟩) own)
  · have known := closure_subset_members member relies.included
    by_cases brought : translated builtin.name = true
    · exact .inr brought
    · refine .inl (constructed (mem_builtins.mpr ⟨listed, known, ?_⟩)
        (relies.isString_eq_false listed))
      rw [Builtin.isIncluded, Bool.or_eq_true, Bool.and_eq_true, Bool.not_eq_true']
      rcases relies.isUsed with used | same
      · exact .inr ⟨used, Bool.eq_false_iff.mpr brought⟩
      · exact .inl (same ▸ root.resolve_right (same ▸ brought))

end FeatureSet

end Bytescript.Support
