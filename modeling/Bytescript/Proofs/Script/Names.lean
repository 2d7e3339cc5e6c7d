import Bytescript.Proofs.Script.Escape
import Bytescript.Proofs.Support.Text

/-!
# What names in the script consist of

All names of classes and methods in the script consist of letters, digits, underscores and dollar
signs, so whatever stands behind a name shows where it ends.  The types behind the name of a method
begin with a capital letter or an underscore.  That tells a name in small letters from them.  A
name that consists of letters and slashes shares its spelling in the script with no other.
-/

set_option autoImplicit false

namespace Bytescript.Script

open Support.Mention (isNameChar words)

variable {char : Char}

/-! ## Characters of names -/

theorem isNameChar_of_all {chars : List Char} (all : chars.all isNameChar = true)
    (member : char ∈ chars) : isNameChar char = true :=
  List.all_eq_true.mp all char member

theorem oneLine_of_isNameChar {text : String}
    (name : ∀ char ∈ text.toList, isNameChar char = true) : OneLine text :=
  oneLine_of_all (by decide) name

theorem isNameChar_hexDigits {width number : Nat} (member : char ∈ Text.hexDigits width number) :
    isNameChar char = true := by
  have name : ∀ digit < 16, isNameChar (Text.hexDigit digit) = true := by decide
  obtain ⟨digit, small, rfl⟩ := Text.mem_hexDigits member
  exact name digit small

theorem isNameChar_escapeNameChar {original : Char} (member : char ∈ escapeNameChar original) :
    isNameChar char = true := by
  rw [escapeNameChar] at member
  split at member
  next plain =>
    rw [List.mem_singleton] at member
    simp only [isPlain, Bool.or_eq_true, decide_eq_true_eq] at plain
    simp only [isNameChar, member, Bool.or_eq_true, decide_eq_true_eq]
    exact plain.imp_left .inl
  split at member
  · exact isNameChar_of_all (by decide) member
  split at member
  · exact isNameChar_of_all (by decide) member
  split at member
  · exact isNameChar_of_all (by decide) member
  split at member
  · exact isNameChar_of_all (by decide) member
  · obtain ⟨unit, _, inside⟩ := List.mem_flatMap.mp member
    simp only [List.mem_cons] at inside
    rcases inside with rfl | rfl | digit
    · decide
    · decide
    · exact isNameChar_hexDigits digit

theorem isNameChar_escapeName {name : List Char} (member : char ∈ escapeName name) :
    isNameChar char = true := by
  obtain ⟨original, _, inside⟩ := List.mem_flatMap.mp member
  exact isNameChar_escapeNameChar inside

theorem isNameChar_classIdentifier {name : ClassName}
    (member : char ∈ (classIdentifier name).toList) : isNameChar char = true := by
  rw [classIdentifier, String.toList_ofList] at member
  exact isNameChar_escapeName member

theorem oneLine_classIdentifier (name : ClassName) : OneLine (classIdentifier name) :=
  oneLine_of_isNameChar fun _ => isNameChar_classIdentifier

theorem isNameChar_typeChars {type : FieldType} (member : char ∈ typeChars type) :
    isNameChar char = true := by
  induction type with
  | primitive type =>
    have letters : ∀ type : Primitive, isNameChar type.letter = true := by
      rintro (_ | _) <;> decide
    rw [typeChars, List.mem_singleton] at member
    exact member ▸ letters type
  | object name =>
    rcases List.mem_cons.mp member with rfl | inside
    · decide
    · exact isNameChar_escapeName inside
  | array element ih =>
    simp only [typeChars, List.mem_cons] at member
    rcases member with rfl | rfl | inside
    · decide
    · decide
    · exact ih inside

theorem isNameChar_methodWord {name : String} (member : char ∈ methodWord name) :
    isNameChar char = true := by
  rw [methodWord] at member
  split at member
  · exact isNameChar_of_all (by decide) member
  split at member
  · exact isNameChar_of_all (by decide) member
  · exact isNameChar_escapeName member

/-- What stands behind the name of a method for the types of its result and its parameters. -/
def typesChars (type : MethodType) : List Char :=
  (match type.result with
    | some result => typeChars result
    | none => ['V']) ++ type.parameters.flatMap typeChars

theorem methodChars_eq (name : String) (type : MethodType) :
    methodChars name type = methodWord name ++ typesChars type :=
  List.append_assoc _ _ _

theorem isNameChar_typesChars {type : MethodType} (member : char ∈ typesChars type) :
    isNameChar char = true := by
  rcases List.mem_append.mp member with result | parameters
  · split at result
    · exact isNameChar_typeChars result
    · exact isNameChar_of_all (by decide) result
  · obtain ⟨parameter, _, inside⟩ := List.mem_flatMap.mp parameters
    exact isNameChar_typeChars inside

theorem isNameChar_staticFunction {owner : ClassName} {name : String} {type : MethodType}
    (member : char ∈ (staticFunction owner name type).toList) : isNameChar char = true := by
  rw [staticFunction, methodProperty, methodChars_eq] at member
  simp only [String.toList_append, String.toList_ofList, List.mem_append] at member
  rcases member with (ctor | underscore) | word | types
  · exact isNameChar_classIdentifier ctor
  · exact isNameChar_of_all (by decide) underscore
  · exact isNameChar_methodWord word
  · exact isNameChar_typesChars types

/-- What stands behind a name shows where it ends. -/
theorem eq_of_prefix_append_cons {one other rest rest' : List Char} {stop stop' : Char}
    (name : ∀ char ∈ one, isNameChar char = true) (name' : ∀ char ∈ other, isNameChar char = true)
    (ends : isNameChar stop = false) (ends' : isNameChar stop' = false)
    (begins : one ++ stop :: rest <+: other ++ stop' :: rest') :
    one = other ∧ stop = stop' ∧ rest <+: rest' := by
  induction one generalizing other with
  | nil =>
    cases other with
    | nil => exact ⟨rfl, List.cons_prefix_cons.mp begins⟩
    | cons char other =>
      obtain ⟨rfl, _⟩ := List.cons_prefix_cons.mp begins
      cases ends.symm.trans (name' _ List.mem_cons_self)
  | cons char one ih =>
    obtain ⟨here, later⟩ := List.forall_mem_cons.mp name
    cases other with
    | nil =>
      obtain ⟨rfl, _⟩ := List.cons_prefix_cons.mp begins
      cases ends'.symm.trans here
    | cons char' other =>
      obtain ⟨rfl, onward⟩ := List.cons_prefix_cons.mp begins
      obtain ⟨rfl, same⟩ := ih later (fun char member => name' char (.tail _ member)) onward
      exact ⟨rfl, same⟩

/-! ## Names of letters and slashes -/

theorem range_of_isAlpha (letter : char.isAlpha = true) :
    (65 ≤ char.toNat ∧ char.toNat ≤ 90) ∨ (97 ≤ char.toNat ∧ char.toNat ≤ 122) := by
  rcases (Bool.or_eq_true _ _).mp letter with upper | lower
  · exact .inl (of_decide_eq_true upper)
  · have range := (Bool.and_eq_true _ _).mp lower
    exact .inr ⟨of_decide_eq_true range.1, of_decide_eq_true range.2⟩

/-- No letter and no slash goes on with an escape. -/
theorem isEscapeDigit_of_letter (letter : char.isAlpha = true ∨ char = '/') :
    isEscapeDigit char = false := by
  have digits : isEscapeDigit char = true → ¬ (char.isAlpha = true ∨ char = '/') := by
    simp only [isEscapeDigit, Bool.or_eq_true, decide_eq_true_eq]
    rintro (((rfl | rfl) | rfl) | rfl) <;> decide
  exact Bool.eq_false_iff.mpr fun digit => digits digit letter

theorem escapeNameChar_of_isAlpha (letter : char.isAlpha = true) : escapeNameChar char = [char] :=
  if_pos (by simp [isPlain, Char.isAlphanum, letter])

/-- **No other name has the escape of a name that consists of letters and slashes.** -/
theorem escapeName_inj_of_letters {one other : List Char}
    (letters : ∀ char ∈ other, char.isAlpha = true ∨ char = '/')
    (same : escapeName one = escapeName other) : one = other := by
  induction other generalizing one with
  | nil =>
    cases one with
    | nil => rfl
    | cons first one =>
      rw [escapeName, List.flatMap_cons] at same
      rcases escapeNameChar_eq_or first with ⟨_, escape⟩ | ⟨_, escape⟩ | ⟨_, _, _, escape⟩ <;>
      · rw [escape] at same
        cases same
  | cons char other ih =>
    obtain ⟨here, later⟩ := List.forall_mem_cons.mp letters
    have single : ∃ sign, escapeNameChar char = [sign] ∧
        (char = '/' ∧ sign = '_' ∨ char = sign ∧ char.isAlpha = true) := by
      rcases here with letter | rfl
      · exact ⟨char, escapeNameChar_of_isAlpha letter, .inr ⟨rfl, letter⟩⟩
      · exact ⟨'_', rfl, .inl ⟨rfl, rfl⟩⟩
    obtain ⟨sign, escape', kind⟩ := single
    rw [escapeName, escapeName, List.flatMap_cons, escape'] at same
    cases one with
    | nil => cases same
    | cons first one =>
      rw [List.flatMap_cons] at same
      rcases escapeNameChar_eq_or first with
        ⟨plain, escape⟩ | ⟨rfl, escape⟩ | ⟨digit, more, isDigit, escape⟩ <;> rw [escape] at same
      · obtain ⟨rfl, back⟩ := List.cons.inj same
        rcases kind with ⟨_, rfl⟩ | ⟨rfl, _⟩
        · exact absurd rfl plain
        · rw [ih later back]
      · obtain ⟨rfl, back⟩ := List.cons.inj same
        rcases kind with ⟨rfl, _⟩ | ⟨rfl, letter⟩
        · rw [ih later back]
        · cases letter
      · obtain ⟨rfl, back⟩ := List.cons.inj same
        exact absurd back.symm (escapeName_ne_escapeDigit_cons isDigit fun sign begins =>
          isEscapeDigit_of_letter (later sign (List.mem_of_mem_head? begins)))

/-! ## Words -/

theorem words_append_cons {stop : Char} (ends : isNameChar stop = false) (front back : List Char) :
    words (front ++ stop :: back) = words front ++ words back :=
  List.splitOnP_append_cons front back (by rw [ends]; rfl)

theorem words_of_name {name : List Char} (all : ∀ char ∈ name, isNameChar char = true) :
    words name = [name] :=
  List.splitOnP_eq_singleton fun char member => by rw [all char member]; rfl

/-- A word consists of characters of the text. -/
theorem mem_of_mem_words {text word : List Char} (listed : word ∈ words text)
    (member : char ∈ word) : char ∈ text := by
  induction text generalizing word with
  | nil =>
    rw [words, List.splitOnP_nil, List.mem_singleton] at listed
    exact absurd member (listed ▸ List.not_mem_nil)
  | cons first rest ih =>
    rw [words, List.splitOnP_cons_eq_if_modifyHead] at listed
    split at listed
    · rcases List.mem_cons.mp listed with rfl | later
      · cases member
      · exact .tail _ (ih later member)
    · obtain ⟨word', others, same⟩ := List.exists_cons_of_ne_nil
        (List.splitOnP_ne_nil (fun char => !isNameChar char) rest)
      rw [same, List.modifyHead_cons] at listed
      have within : word' ∈ words rest ∧ ∀ other ∈ others, other ∈ words rest := by
        rw [words, same]
        exact ⟨List.mem_cons_self, fun other => .tail _⟩
      rcases List.mem_cons.mp listed with rfl | later
      · rcases List.mem_cons.mp member with rfl | inside
        · exact List.mem_cons_self
        · exact .tail _ (ih within.1 inside)
      · exact .tail _ (ih (within.2 _ later) member)

/-! ## Types behind names -/

/-- A type begins neither with a small letter nor as the lack of a result is written. -/
theorem exists_typeChars_eq_cons (type : FieldType) :
    ∃ first rest, typeChars type = first :: rest ∧ first.isLower = false ∧ first ≠ 'V' := by
  cases type with
  | primitive type =>
    have letters : ∀ type : Primitive, type.letter.isLower = false ∧ type.letter ≠ 'V' := by
      rintro (_ | _) <;> decide
    exact ⟨_, _, rfl, letters type⟩
  | object name => exact ⟨'L', _, rfl, by decide, by decide⟩
  | array element => exact ⟨'_', _, rfl, by decide, by decide⟩

theorem exists_typesChars_eq_cons (type : MethodType) :
    ∃ first rest, typesChars type = first :: rest ∧ first.isLower = false := by
  rw [typesChars]
  split
  next result _ =>
    obtain ⟨first, rest, written, small, _⟩ := exists_typeChars_eq_cons result
    exact ⟨first, _, by rw [written]; rfl, small⟩
  · exact ⟨'V', _, rfl, by decide⟩

/-- Characters that end in a small letter, without the letter that the type of an object begins
with. -/
def EndsSmall (chars : List Char) : Prop :=
  'L' ∉ chars ∧ chars.getLast?.any Char.isLower = true

instance (chars : List Char) : Decidable (EndsSmall chars) :=
  inferInstanceAs (Decidable (_ ∧ _))

theorem EndsSmall.of_append {back : List Char} (front : List Char)
    (ends : EndsSmall (front ++ back)) (more : back ≠ []) : EndsSmall back := by
  obtain ⟨missing, small⟩ := ends
  rw [List.getLast?_append_of_ne_nil _ more] at small
  exact ⟨fun inside => missing (List.mem_append_right _ inside), small⟩

theorem typeChars_ne_nil (type : FieldType) : typeChars type ≠ [] := by
  obtain ⟨first, rest, begins, _⟩ := exists_typeChars_eq_cons type
  exact begins ▸ List.cons_ne_nil first rest

theorem not_endsSmall_typeChars (type : FieldType) : ¬ EndsSmall (typeChars type) := by
  induction type with
  | primitive type =>
    rintro ⟨_, small⟩
    have large : ∀ type : Primitive, type.letter.isLower = false := by rintro (_ | _) <;> decide
    cases (large type).symm.trans small
  | object name => exact fun ends => ends.1 List.mem_cons_self
  | array element ih => exact fun ends => ih (ends.of_append ['_', '3'] (typeChars_ne_nil element))

theorem not_endsSmall_typesChars (type : MethodType) : ¬ EndsSmall (typesChars type) := by
  intro ends
  rw [typesChars] at ends
  rcases List.eq_nil_or_concat type.parameters with none | ⟨parameters, last, same⟩
  · rw [none, List.flatMap_nil, List.append_nil] at ends
    split at ends
    · exact not_endsSmall_typeChars _ ends
    · exact absurd ends.2 (by decide)
  · rw [same, List.concat_eq_append, List.flatMap_append, List.flatMap_singleton,
      ← List.append_assoc] at ends
    exact not_endsSmall_typeChars _ (ends.of_append _ (typeChars_ne_nil last))

/-- The function of a static method has another name than one that ends so. -/
theorem staticFunction_ne_of_endsSmall {owner : ClassName} {name : String} {type : MethodType}
    {function : String} (ends : EndsSmall function.toList) :
    staticFunction owner name type ≠ function := by
  rintro rfl
  obtain ⟨first, rest, begins, _⟩ := exists_typesChars_eq_cons type
  rw [staticFunction, methodProperty, methodChars_eq, String.toList_append, String.toList_ofList,
    ← List.append_assoc] at ends
  exact not_endsSmall_typesChars type (ends.of_append _ (begins ▸ List.cons_ne_nil first rest))

/-- Only a method without parameters and without a result has this alone behind its name. -/
theorem typesChars_eq_void {type : MethodType} : typesChars type = ['V'] ↔ type = ⟨[], none⟩ := by
  constructor
  · obtain ⟨parameters, result⟩ := type
    intro written
    cases result with
    | some result =>
      obtain ⟨first, rest, begins, _, other⟩ := exists_typeChars_eq_cons result
      simp only [typesChars, begins] at written
      exact absurd (List.cons.inj written).1 other
    | none =>
      have nothing : parameters.flatMap typeChars = [] := (List.cons.inj written).2
      cases parameters with
      | nil => rfl
      | cons parameter others =>
        obtain ⟨first, rest, begins, _⟩ := exists_typeChars_eq_cons parameter
        rw [List.flatMap_cons, begins] at nothing
        cases nothing
  · rintro rfl
    rfl

/-- Small letters before the types are the name of the method. -/
theorem methodChars_eq_append_iff {name : String} {type : MethodType} {word : List Char}
    (small : ∀ char ∈ word, char.isLower = true) :
    methodChars name type = word ++ ['V'] ↔ methodWord name = word ∧ type = ⟨[], none⟩ := by
  rw [methodChars_eq, ← typesChars_eq_void]
  constructor
  · intro same
    obtain ⟨first, rest, types, large⟩ := exists_typesChars_eq_cons type
    rw [types] at same ⊢
    rcases List.append_eq_append_iff.mp same with ⟨more, longer, back⟩ | ⟨more, longer, back⟩
    · cases more with
      | nil => exact ⟨by simpa using longer.symm, by simpa using back⟩
      | cons char more =>
        obtain ⟨rfl, _⟩ := List.cons.inj back
        have inside : first ∈ word := longer ▸ List.mem_append_right _ List.mem_cons_self
        cases (small first inside).symm.trans large
    · cases more with
      | nil => exact ⟨by simpa using longer, back.symm⟩
      | cons char more => simp at back
  · rintro ⟨rfl, types⟩
    rw [types]

/-! ## Words of methods -/

/-- The name that stands in the script for the name of a method, before it is escaped. -/
def wordOf (name : String) : String :=
  if name = constructorName then "cons" else if name = initializerName then "clinit" else name

theorem methodWord_eq (name : String) : methodWord name = escapeName (wordOf name).toList := by
  rw [methodWord, wordOf]
  split
  · rfl
  split
  · rfl
  · rfl

/-- Static initializers share their word with methods that are named like it. -/
theorem methodWord_eq_clinit {name : String} :
    methodWord name = "clinit".toList ↔ name = initializerName ∨ name = "clinit" := by
  have plain : escapeName "clinit".toList = "clinit".toList := rfl
  have letters : "clinit".toList.all Char.isAlpha = true := by decide
  have word : methodWord name = "clinit".toList ↔ wordOf name = "clinit" := by
    rw [methodWord_eq]
    refine ⟨fun same => String.toList_injective ?_, fun same => by rw [same, plain]⟩
    refine escapeName_inj_of_letters (fun char member => .inl ?_) (same.trans plain.symm)
    exact List.all_eq_true.mp letters char member
  rw [word, wordOf]
  split
  next ctor => simp [ctor, constructorName, initializerName]
  split
  next initializer => simp [initializer]
  next other => simp [other]

/-- The static methods of one class are told apart as instance methods are. -/
theorem staticFunction_eq_iff {owner : ClassName} {name other : String} {type type' : MethodType} :
    staticFunction owner name type = staticFunction owner other type' ↔
      methodProperty name type = methodProperty other type' := by
  rw [staticFunction, staticFunction, String.append_right_inj]

/-- **The functions that static initializers and methods named like them are written as.** -/
theorem staticFunction_eq_initializer_iff {owner : ClassName} {name : String} {type : MethodType} :
    staticFunction owner name type = staticFunction owner initializerName ⟨[], none⟩ ↔
      (name = initializerName ∨ name = "clinit") ∧ type = ⟨[], none⟩ := by
  have word : methodChars initializerName ⟨[], none⟩ = "clinit".toList ++ ['V'] := by decide
  have small : ∀ char ∈ "clinit".toList, char.isLower = true := List.all_eq_true.mp (by decide)
  rw [← methodWord_eq_clinit, ← methodChars_eq_append_iff small, ← word, staticFunction_eq_iff,
    methodProperty, methodProperty, String.ofList_inj]

end Bytescript.Script
