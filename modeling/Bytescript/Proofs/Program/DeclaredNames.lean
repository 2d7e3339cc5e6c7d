import Bytescript.Assembly.Sketch
import Bytescript.Program.Compile
import Bytescript.Proofs.Failure
import Bytescript.Proofs.Script.Definitions
import Bytescript.Proofs.Script.MethodNames

/-!
# Names that can be declared

The script declares a function for every class and for every static method.  Escapes leave
only characters of identifiers in their names, but they keep a digit at the beginning, a reserved
word, and a global name that the script reads.  Nothing else is escaped to one of these words, and
there is no underscore in them, while there is one in the name of each static method.  So the only
constructor functions that cannot be declared are those of classes that are called like a word, or
have a name that is empty or begins with a digit, and a static method only takes over the digit.
-/

set_option autoImplicit false

namespace Bytescript.Script

open Support.Mention (isNameChar)

variable {owner : ClassName} {name text : String} {words : List String}

/-! ## Words of the script -/

/-- The words that cannot be names in a script. -/
def reservedWords : List String :=
  ["await", "break", "case", "catch", "class", "const", "continue", "debugger", "default", "delete",
    "do", "else", "enum", "export", "extends", "false", "finally", "for", "function", "if",
    "import", "in", "instanceof", "new", "null", "return", "super", "switch", "this", "throw",
    "true", "try", "typeof", "var", "void", "while", "with", "yield"]

/-- The global names that the support library and the code of methods read. -/
def readGlobals : List String :=
  ["$vm", "Object", "Array", "String", "Math", "Number", "BigInt", "TypeError", "RangeError", "NaN",
    "Infinity", "undefined"]

/-- Words that stand for themselves where names are escaped. -/
def ArePlain (words : List String) : Prop := (words.all fun word => word.toList.all isPlain) = true

instance (words : List String) : Decidable (ArePlain words) := inferInstanceAs (Decidable (_ = _))

theorem ArePlain.isPlain {char : Char} (plain : ArePlain words) (listed : text ∈ words)
    (member : char ∈ text.toList) : isPlain char = true :=
  List.all_eq_true.mp (List.all_eq_true.mp plain text listed) char member

theorem arePlain_reservedWords : ArePlain reservedWords := by decide

theorem arePlain_readGlobals : ArePlain readGlobals := by decide

/-- Only a name of plain characters is escaped without an underscore. -/
theorem escapeName_eq_self {name : List Char} (plain : '_' ∉ escapeName name) :
    escapeName name = name := by
  induction name with
  | nil => rfl
  | cons char rest ih =>
    rw [escapeName, List.flatMap_cons, ← escapeName] at plain ⊢
    rcases escapeNameChar_eq_or char with ⟨_, escape⟩ | ⟨_, escape⟩ | ⟨_, _, _, escape⟩ <;>
      rw [escape] at plain ⊢
    · rw [ih fun inside => plain (List.mem_append_right _ inside), List.singleton_append]
    · exact absurd List.mem_cons_self plain
    · exact absurd List.mem_cons_self plain

theorem ArePlain.notMem (plain : ArePlain words) (underscore : '_' ∈ text.toList) :
    text ∉ words := by
  intro listed
  cases plain.isPlain listed underscore

/-- A constructor function is only called like a plain word if the class is. -/
theorem ArePlain.classIdentifier_mem_iff (plain : ArePlain words) :
    classIdentifier owner ∈ words ↔ owner.text ∈ words := by
  have written : (classIdentifier owner).toList = escapeName owner.text.toList :=
    String.toList_ofList
  have same (self : escapeName owner.text.toList = owner.text.toList) :
      classIdentifier owner = owner.text := String.toList_injective (written.trans self)
  constructor
  · intro listed
    have none : '_' ∉ escapeName owner.text.toList :=
      fun inside => plain.notMem (written ▸ inside) listed
    rwa [same (escapeName_eq_self none)] at listed
  · intro listed
    rwa [same (escapeName_of_plain fun _ => plain.isPlain listed)]

/-! ## The first character -/

/-- Whether a text begins with a digit. -/
def beginsWithDigit (text : String) : Bool := text.toList.head?.any Char.isDigit

/-- An escaped name begins with a digit exactly if the name does, if nothing else brings one. -/
theorem any_head?_escapeName_append {name rest : List Char}
    (other : rest.head?.any Char.isDigit = false) :
    (escapeName name ++ rest).head?.any Char.isDigit = name.head?.any Char.isDigit := by
  cases name with
  | nil => exact other
  | cons char more =>
    rw [escapeName, List.flatMap_cons]
    rcases escapeNameChar_eq_or char with ⟨_, escape⟩ | ⟨rfl, escape⟩ | ⟨_, _, _, escape⟩
    · rw [escape]
      rfl
    · rw [escape]
      rfl
    · have sign : char.isDigit = false := by
        refine Bool.eq_false_iff.mpr fun digit => ?_
        have plain : escapeNameChar char = [char] :=
          if_pos (by simp [isPlain, Char.isAlphanum, digit])
        cases plain.symm.trans escape
      rw [escape]
      exact sign.symm

theorem any_isDigit_head?_typesChars (type : MethodType) :
    (typesChars type).head?.any Char.isDigit = false := by
  have one (type : FieldType) (rest : List Char) :
      (typeChars type ++ rest).head?.any Char.isDigit = false := by
    cases type with
    | primitive type =>
      have letters : ∀ type : Primitive, type.letter.isDigit = false := by
        rintro (_ | _) <;> decide
      exact letters type
    | object name => rfl
    | array element => rfl
  rw [typesChars]
  split
  next result _ => exact one result _
  · rfl

theorem beginsWithDigit_classIdentifier :
    beginsWithDigit (classIdentifier owner) = beginsWithDigit owner.text := by
  have written : (classIdentifier owner).toList = escapeName owner.text.toList ++ [] := by
    rw [List.append_nil]
    exact String.toList_ofList
  rw [beginsWithDigit, written, any_head?_escapeName_append rfl, beginsWithDigit]

theorem beginsWithDigit_staticFunction {type : MethodType} :
    beginsWithDigit (staticFunction owner name type) = beginsWithDigit owner.text := by
  have written : (staticFunction owner name type).toList =
      escapeName owner.text.toList ++ ('_' :: methodChars name type) := by
    simp [staticFunction, classIdentifier, methodProperty]
  rw [beginsWithDigit, written, any_head?_escapeName_append rfl, beginsWithDigit]

/-- The words for special methods begin with no digit, and neither do these methods' names. -/
theorem beginsWithDigit_methodProperty {type : MethodType} :
    beginsWithDigit (methodProperty name type) = beginsWithDigit name := by
  have written : (methodProperty name type).toList =
      escapeName (wordOf name).toList ++ typesChars type := by
    rw [← methodWord_eq, ← methodChars_eq]
    exact String.toList_ofList
  rw [beginsWithDigit, written, any_head?_escapeName_append (any_isDigit_head?_typesChars type)]
  rw [wordOf]
  split
  next ctor =>
    subst ctor
    decide
  split
  next initializer =>
    subst initializer
    decide
  · rfl

/-! ## Names that can be declared -/

/-- A text is an identifier of the script, among those that have the characters of names only. -/
structure IsIdentifier (text : String) : Prop where
  nonempty : text ≠ ""
  start : beginsWithDigit text = false
  characters : ∀ char ∈ text.toList, isNameChar char = true

/-- A global function can have this name: an identifier that is not reserved, and that replaces
nothing that the script reads. -/
structure IsDeclarable (text : String) : Prop where
  isIdentifier : IsIdentifier text
  free : text ∉ reservedWords
  unread : text ∉ readGlobals

theorem classIdentifier_ne_empty_iff : classIdentifier owner ≠ "" ↔ owner.text ≠ "" := by
  have plain : ArePlain [""] := by decide
  have listed : classIdentifier owner ∈ [""] ↔ owner.text ∈ [""] := plain.classIdentifier_mem_iff
  simpa using listed.not

theorem isDeclarable_classIdentifier_iff :
    IsDeclarable (classIdentifier owner) ↔ owner.text ≠ "" ∧ beginsWithDigit owner.text = false ∧
      owner.text ∉ reservedWords ∧ owner.text ∉ readGlobals := by
  rw [← classIdentifier_ne_empty_iff, ← beginsWithDigit_classIdentifier,
    ← arePlain_reservedWords.classIdentifier_mem_iff,
    ← arePlain_readGlobals.classIdentifier_mem_iff]
  constructor
  · rintro ⟨⟨nonempty, start, _⟩, free, unread⟩
    exact ⟨nonempty, start, free, unread⟩
  · rintro ⟨nonempty, start, free, unread⟩
    exact ⟨⟨nonempty, start, fun _ => isNameChar_classIdentifier⟩, free, unread⟩

theorem isDeclarable_staticFunction_iff {type : MethodType} :
    IsDeclarable (staticFunction owner name type) ↔ beginsWithDigit owner.text = false := by
  have underscore : '_' ∈ (staticFunction owner name type).toList := by simp [staticFunction]
  rw [← @beginsWithDigit_staticFunction owner name type]
  constructor
  · exact fun declarable => declarable.isIdentifier.start
  · intro start
    refine ⟨⟨?_, start, fun _ => isNameChar_staticFunction⟩,
      arePlain_reservedWords.notMem underscore, arePlain_readGlobals.notMem underscore⟩
    intro empty
    rw [empty] at underscore
    cases underscore

/-- **The names of functions that can be declared.**  The constructor function of a class can be
unless the class is called like a word of the script, or its name is empty or begins with a digit.
The function of a static method can be unless the name of its class begins with a digit, and the
property of a method begins with a digit exactly if its name does. -/
theorem identifiers_declarable_iff {descriptor : String} {type : MethodType}
    (valid : MethodType.parse descriptor = .ok type) (owner : ClassName) (name : String) :
    (IsDeclarable (classIdentifier owner) ↔ owner.text ≠ "" ∧
      beginsWithDigit owner.text = false ∧ owner.text ∉ reservedWords ∧
      owner.text ∉ readGlobals) ∧
    (∃ function, staticIdentifier owner name descriptor = .ok function ∧
      (IsDeclarable function ↔ beginsWithDigit owner.text = false)) ∧
    ∃ property, methodIdentifier name descriptor = .ok property ∧
      beginsWithDigit property = beginsWithDigit name :=
  ⟨isDeclarable_classIdentifier_iff,
    ⟨_, staticIdentifier_of_parse valid, isDeclarable_staticFunction_iff⟩,
    ⟨_, methodIdentifier_of_parse valid, beginsWithDigit_methodProperty⟩⟩

/-- In a package, a class may be called like a word of the script. -/
theorem identifiers_inPackage_declarable_iff :
    MethodType.parse "(I)V" = .ok ⟨[.primitive .int], none⟩ ∧
      (IsDeclarable (classIdentifier ⟨"a/delete"⟩) ↔ "a/delete" ≠ "" ∧
        beginsWithDigit "a/delete" = false ∧ "a/delete" ∉ reservedWords ∧
        "a/delete" ∉ readGlobals) ∧
      (∃ function, staticIdentifier ⟨"a/delete"⟩ "f" "(I)V" = .ok function ∧
        (IsDeclarable function ↔ beginsWithDigit "a/delete" = false)) ∧
      ∃ property, methodIdentifier "f" "(I)V" = .ok property ∧
        beginsWithDigit property = beginsWithDigit "f" := by
  have valid : MethodType.parse "(I)V" = .ok ⟨[.primitive .int], none⟩ := rfl
  exact ⟨valid, identifiers_declarable_iff valid ⟨"a/delete"⟩ "f"⟩

end Bytescript.Script

namespace Bytescript.Program

open Script

/-! ## Programs with other names -/

/-- Classes that are called like a reserved word and like a global name, and one whose name begins
with a digit, with a static method and with one whose name begins with a digit as well. -/
def unusualLoader : Loader :=
  let returns : Assembly.AttributeSketch := .code 0 1 [0xb1] [] []
  (ClassStore.ofList
    [(⟨"delete"⟩, Assembly.ClassSketch.bytes
        (Assembly.ClassSketch.empty ⟨"delete"⟩ (some .object))),
      (⟨"Object"⟩, Assembly.ClassSketch.bytes
        (Assembly.ClassSketch.empty ⟨"Object"⟩ (some .object))),
      (⟨"7z"⟩, Assembly.ClassSketch.bytes
        { Assembly.ClassSketch.empty ⟨"7z"⟩ (some .object) with
          methods := [⟨0x0009, "f", "()V", [returns]⟩, ⟨0x0001, "7z", "()V", [returns]⟩] })]).loader

/-- How the functions of these classes begin. -/
def unusualFunctions : List String :=
  ["function delete() \x7b", "function Object() \x7b", "function 7z() \x7b",
    "function 7z_fV() \x7b", "7z.prototype.7zV = function() \x7b"]

/-- The functions of these classes are written although they cannot be declared, or replace what the
script reads. -/
theorem compile_unusual_undeclarable :
    (∃ program, compile [⟨"delete"⟩, ⟨"Object"⟩, ⟨"7z"⟩] unusualLoader .default = .ok program ∧
      ∀ line ∈ unusualFunctions, line ∈ program.classes) ∧
      ¬ IsDeclarable (classIdentifier ⟨"delete"⟩) ∧ ¬ IsDeclarable (classIdentifier ⟨"Object"⟩) ∧
      ¬ IsDeclarable (classIdentifier ⟨"7z"⟩) ∧
      staticIdentifier ⟨"7z"⟩ "f" "()V" = .ok "7z_fV" ∧ ¬ IsDeclarable "7z_fV" ∧
      methodIdentifier "7z" "()V" = .ok "7zV" ∧ beginsWithDigit "7zV" = true := by
  refine ⟨?_, fun word => word.free (by decide), fun read => read.unread (by decide),
    fun digit => ?_, rfl, fun digit => ?_, rfl, by decide⟩
  · have computed : (compile [⟨"delete"⟩, ⟨"Object"⟩, ⟨"7z"⟩] unusualLoader
        .default).toOption.any (fun program => ∀ line ∈ unusualFunctions,
          line ∈ program.classes) = true := by
      decide +kernel
    obtain ⟨program, compiled, written⟩ := (Option.any_eq_true _ _).mp computed
    exact ⟨program, ok_of_toOption compiled, of_decide_eq_true written⟩
  · exact absurd digit.isIdentifier.start (by decide)
  · exact absurd digit.isIdentifier.start (by decide)

end Bytescript.Program
