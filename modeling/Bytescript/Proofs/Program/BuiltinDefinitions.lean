import Bytescript.Assembly.Sketch
import Bytescript.Proofs.Program.BuiltinCalls
import Bytescript.Proofs.Support.NamedClasses
import Bytescript.Proofs.Translation.Outline

/-!
# Every class is defined once

A program holds the constructor functions of some builtin classes in its support library, and those
of the classes that it was found to need in the code that these are translated to.  Provided classes
are not translated, and the library writes a class that is not provided only if the program brings
none of that name, so that no class is defined by both.  Which builtin classes are replaced is left
open.  What the library itself names is always defined by one of the two, once the root class is.
All this is said of the lines of the script, apart from what given bodies bring and what the name of
a class brings if it has several lines.
-/

set_option autoImplicit false

namespace Bytescript

open Script Support Translation

theorem ClassTable.contains_iff {table : ClassTable} {name : ClassName} :
    table.contains name = true ↔ name ∈ table.names := by
  simp [contains, find?, names]

theorem Support.Builtin.find?_name {builtin : Builtin} (listed : builtin ∈ all) :
    find? builtin.name = some builtin := by
  have present : (find? builtin.name).isSome = true :=
    List.find?_isSome.mpr ⟨builtin, listed, decide_eq_true rfl⟩
  obtain ⟨other, found⟩ := Option.isSome_iff_exists.mp present
  have same := eq_of_name_eq (mem_all_of_find? found) listed (name_of_find? found)
  exact found.trans (congrArg some same)

/-! ## Classes -/

/-- The text of a class: the lines before its methods hold its constructor function and its
registration.  The methods register nothing and are no constructor functions of builtin classes,
apart from what bodies that are given bring. -/
structure DefinesClass (natives : NativeBodies) (file : ClassFile) (text : ClassText) : Prop where
  named : text.IsNamed file.name
  constructor : text.head.filter startsFunction = [constructorStart file.name]
  registration : List.Forall₂ Registers [file.name] (text.head.filter isRegistration)
  methods : ∀ line ∈ text.functions.flatten,
    (isRegistration line = true ∨ ∃ builtin ∈ Builtin.all, line = constructorStart builtin.name) →
      ∃ method ∈ file.methods, ∃ body, natives.find file.name method = .ok (some body) ∧
        line ∈ broughtLines body

theorem exists_definesClass {classes : ClassTable} {natives : NativeBodies} {file : ClassFile}
    {written : Written} (made : translateClass classes natives file = .ok written) :
    ∃ text : ClassText, text.lines = allTextLines written.lines ∧
      DefinesClass natives file text := by
  obtain ⟨fields, statics, functions, outline⟩ := exists_hasOutline made
  obtain ⟨text, named, head, methods, lines⟩ :=
    exists_classText file.name functions outline.single
  refine ⟨text, by rw [lines, outline.lines], named, ?_, ?_, ?_⟩
  · rw [head, outline.filter_startsFunction]
  · rw [head, outline.filter_isRegistration]
    exact .cons (registers_registrationLine file) .nil
  · intro line inside begins
    rw [methods] at inside
    obtain ⟨_, listed, inside⟩ := List.mem_flatten.mp inside
    obtain ⟨lines, function, rfl⟩ := List.mem_map.mp listed
    obtain ⟨method, declared, written⟩ := exists_of_forall₂_right outline.functions function
    refine ⟨method, declared, ?_⟩
    rcases begins with registers | ⟨builtin, listed, rfl⟩
    · exact written.brought_of_isRegistration inside registers
    · exact written.brought_of_constructorStart (Builtin.spelling_classIdentifier listed).2 inside

namespace Program

variable {entries : List ClassName} {loader : Loader} {settings : Settings} {program : Program}
  {reach : Reachability} {pieces : List Written}

/-- The constructor functions of a program are those of some builtin classes, which its support
library holds, and those of its classes.  They are all different. -/
structure DefinesOnce (program : Program) (natives : NativeBodies) (table : ClassTable)
    (written : List ClassName) : Prop where
  supportConstructors : program.support.filter startsFunction = written.map constructorStart
  supportRegistrations : List.Forall₂ Registers written (program.support.filter isRegistration)
  classes : ∃ texts, program.HasTexts texts ∧
    List.Forall₂ (DefinesClass natives) table.files texts
  behind : ∀ line ∈ linkLine :: program.starts,
    startsFunction line = false ∧ isRegistration line = false
  distinct : (written ++ table.names).Nodup
  apart : ∀ name ∈ written, ∀ other ∈ table.names, constructorStart name ≠ constructorStart other

/-- A class is not translated if the support library holds its constructor function. -/
theorem notMem_names_of_mem_constructed {set : FeatureSet} {name : ClassName}
    (closure : reach.IsClosure loader.load entries settings.provided)
    (written : name ∈ set.constructed settings.provided.contains reach.classes.contains) :
    name ∉ reach.classes.names := by
  obtain ⟨builtin, member, _, rfl⟩ := FeatureSet.mem_constructed.mp written
  have included := (FeatureSet.mem_builtins.mp member).2.2
  rw [Builtin.isIncluded, Bool.or_eq_true, Bool.and_eq_true, Bool.not_eq_true'] at included
  intro translated
  rcases included with provided | ⟨_, left⟩
  · exact closure.classes_notMem _ translated (List.contains_iff_mem.mp provided)
  · cases left.symm.trans (ClassTable.contains_iff.mpr translated)

/-- The call of a static initializer begins with a word that ends at its parentheses. -/
theorem startLine_begins_nothing (name : ClassName) {start word rest : List Char} {stop : Char}
    (split : start = word ++ stop :: rest)
    (all : ∀ char ∈ word, Support.Mention.isNameChar char = true)
    (ends : Support.Mention.isNameChar stop = false) (other : stop ≠ '(') :
    start.isPrefixOf (startLine name).toList = false := by
  rw [Bool.eq_false_iff, ne_eq, List.isPrefixOf_iff_prefix, startLine, String.toList_append, split]
  intro begins
  exact other (eq_of_prefix_append_cons (fun _ => all _) (fun _ => isNameChar_staticFunction) ends
    (by decide) begins).2.1

/-- So it neither begins a function nor registers a class. -/
theorem startLine_defines_nothing (name : ClassName) :
    startsFunction (startLine name) = false ∧ isRegistration (startLine name) = false := by
  have function : "function ".toList = "function".toList ++ ' ' :: [] := rfl
  have registration : "$vm.defineClass(".toList =
      "$vm".toList ++ '.' :: "defineClass(".toList := rfl
  exact ⟨startLine_begins_nothing name function (by decide) (by decide) (by decide),
    startLine_begins_nothing name registration (by decide) (by decide) (by decide)⟩

theorem IsMadeOf.definesOnce (made : program.IsMadeOf reach settings pieces)
    (compiled : ofReachability reach settings = .ok program)
    (closure : reach.IsClosure loader.load entries settings.provided) :
    program.DefinesOnce settings.natives reach.classes
      ((usedFeatures reach pieces).constructed settings.provided.contains
        reach.classes.contains) := by
  have missing {name : ClassName} := @notMem_names_of_mem_constructed entries loader settings reach
    (usedFeatures reach pieces) name closure
  refine ⟨?_, ?_, ?_, ?_, ?_, ?_⟩
  · rw [made.support]
    exact FeatureSet.filter_startsFunction_lines
  · rw [made.support]
    exact FeatureSet.filter_isRegistration_lines
  · exact made.exists_hasTexts compiled fun _ _ _ _ translated => exists_definesClass translated
  · refine List.forall_mem_cons.mpr ⟨by decide, fun line listed => ?_⟩
    obtain ⟨name, rfl⟩ := exists_startLine_of_mem_starts compiled listed
    exact startLine_defines_nothing name
  · refine List.nodup_append.mpr ⟨FeatureSet.nodup_constructed, reach.classes.distinct, ?_⟩
    rintro name written _ translated rfl
    exact missing written translated
  · intro name written other translated same
    obtain ⟨builtin, member, _, rfl⟩ := FeatureSet.mem_constructed.mp written
    have listed := (FeatureSet.mem_builtins.mp member).1
    have identifiers := (constructorStart_inj same).symm
    exact missing written (Builtin.eq_name_of_classIdentifier_eq listed identifiers ▸ translated)

/-- **Every class is defined once, and builtin classes whenever they are needed.**  No constructor
function is there twice, in the support library, in the code of the classes, or in both.  The text
of a builtin class that is provided and referred to stands at one place in the library.  If the root
class is provided or translated, every builtin class whose constructor function the library names
has one in either part. -/
theorem compile_definesBuiltinsOnce (compiled : compile entries loader settings = .ok program) :
    ∃ reach written, Reachability.closeOver entries loader settings.provided = .ok reach ∧
      program.DefinesOnce settings.natives reach.classes written ∧
      (∀ builtin ∈ Builtin.all, builtin.name ∈ reach.provided →
        ∃! split : List String × List String,
          program.support = split.1 ++ builtin.lines ++ split.2) ∧
      (.object ∈ settings.provided ∨ .object ∈ reach.classes.names →
        ∀ line ∈ program.support, ∀ builtin ∈ Builtin.all, NamesClass line builtin.name →
          builtin.name ∈ written ∨ builtin.name ∈ reach.classes.names) := by
  obtain ⟨reach, closed, compiled⟩ := bind_eq_ok.mp compiled
  obtain ⟨pieces, made⟩ := exists_isMadeOf compiled
  have closure := (Reachability.closeOver_eq_ok.mp closed).isClosure
  refine ⟨reach, _, closed, made.definesOnce compiled closure, ?_, ?_⟩
  · intro builtin listed provided
    rw [made.support]
    have known : builtin.feature ∈ (usedFeatures reach pieces).members :=
      feature_mem_usedFeatures (.inr provided) (Builtin.find?_name listed)
    refine FeatureSet.existsUnique_split (FeatureSet.mem_builtins.mpr ⟨listed, known, ?_⟩)
    rw [Builtin.isIncluded, List.contains_iff_mem.mpr (closure.provided_mem _ provided),
      Bool.true_or]
  · intro root line written builtin listed naming
    rw [made.support] at written
    rw [← ClassTable.contains_iff]
    refine FeatureSet.mem_constructed_or_translated ?_ written listed naming
    exact root.imp List.contains_iff_mem.mpr ClassTable.contains_iff.mpr

/-! ## A program with an error class of its own -/

/-- A class whose only method divides, and a class of errors that takes the place of the builtin
one. -/
def ownErrorLoader : Loader :=
  let main : Assembly.ClassSketch := { Assembly.ClassSketch.empty ⟨"Main"⟩ (some .object) with
    methods := [⟨0x09, "divide", "(II)I", [.code 2 2 [0x1a, 0x1b, 0x6c, 0xac] [] []]⟩] }
  let error := Assembly.ClassSketch.empty ⟨"java/lang/Error"⟩ (some .object)
  (ClassStore.ofList [(⟨"Main"⟩, main.bytes), (⟨"java/lang/Error"⟩, error.bytes)]).loader

/-- The text of the root class, which alone is provided, is written once.  The text of the support
library names the class of errors, which the program defines, and that of arithmetic exceptions,
which is neither provided nor translated and therefore is defined by the library. -/
theorem compile_ownError_definesBuiltinsOnce : ∃ program reach written,
    compile [⟨"Main"⟩, ⟨"java/lang/Error"⟩] ownErrorLoader ⟨[.object], .empty⟩ = .ok program ∧
      Reachability.closeOver [⟨"Main"⟩, ⟨"java/lang/Error"⟩] ownErrorLoader [.object] = .ok reach ∧
      program.DefinesOnce .empty reach.classes written ∧
      (.object ∈ reach.provided ∧ ∃! split : List String × List String,
        program.support = split.1 ++ objectLines ++ split.2) ∧
      (⟨"java/lang/Error"⟩ ∈ reach.classes.names ∧ ⟨"java/lang/Error"⟩ ∉ written) ∧
      ⟨"java/lang/ArithmeticException"⟩ ∈ written := by
  have compiles : (compile [⟨"Main"⟩, ⟨"java/lang/Error"⟩] ownErrorLoader
      ⟨[.object], .empty⟩).toOption.any (fun program => program.support.contains
        "\treturn $vm.newThrowable(java_lang_ArithmeticException, \"/ by zero\");") = true := by
    decide +kernel
  obtain ⟨program, compiled, line⟩ := (Option.any_eq_true _ _).mp compiles
  have compiled := ok_of_toOption compiled
  obtain ⟨reach, written, closed, once, builtins, named⟩ := compile_definesBuiltinsOnce compiled
  have found : (Reachability.closeOver [⟨"Main"⟩, ⟨"java/lang/Error"⟩] ownErrorLoader
      [.object]).toOption.all (fun reach => .object ∈ reach.provided ∧
        ⟨"java/lang/Error"⟩ ∈ reach.classes.names ∧
        ⟨"java/lang/ArithmeticException"⟩ ∉ reach.classes.names) = true := by
    decide +kernel
  obtain ⟨root, error, other⟩ :=
    of_decide_eq_true ((Option.all_eq_true _ _).mp found reach (by rw [closed]; rfl))
  have missing : ⟨"java/lang/Error"⟩ ∉ written := fun inside =>
    List.disjoint_of_nodup_append once.distinct inside error
  have names : NamesClass
      "\treturn $vm.newThrowable(java_lang_ArithmeticException, \"/ by zero\");"
      ⟨"java/lang/ArithmeticException"⟩ := by
    decide +kernel
  obtain ⟨thrown, listed, name⟩ : ∃ builtin ∈ Builtin.all,
      builtin.name = ⟨"java/lang/ArithmeticException"⟩ := by
    decide +kernel
  rw [← name] at names other ⊢
  have thrown := (named (.inl (.head _)) _ (List.contains_iff_mem.mp line) _ listed
    names).resolve_right other
  have object : (⟨.object, none, .classModel, .text objectLines, Builtin.objectMethods, false⟩ :
      Builtin) ∈ Builtin.all := .head _
  exact ⟨program, reach, written, compiled, closed, once, ⟨root, builtins _ object root⟩,
    ⟨error, missing⟩, thrown⟩

/-! ## A name with two lines -/

/-- Whether a line begins the constructor function of a class, whatever stands behind. -/
def beginsConstructor (name : ClassName) (line : String) : Bool :=
  (constructorStart name).toList.isPrefixOf line.toList

/-- The second line of the name of a class is no comment, and may define the constructor function of
a builtin class that the support library defines as well. -/
theorem compile_twoLines_definesTwice : ∃ program,
    compile [⟨"A\nfunction java_lang_Object() \x7b\x7d"⟩]
        (namedLoader ⟨"A\nfunction java_lang_Object() \x7b\x7d"⟩ .object) .default = .ok program ∧
      0 < program.support.countP (beginsConstructor .object) ∧
      1 < (textLines program.text).countP (beginsConstructor .object) := by
  have computed : (compile [⟨"A\nfunction java_lang_Object() \x7b\x7d"⟩]
      (namedLoader ⟨"A\nfunction java_lang_Object() \x7b\x7d"⟩ .object) .default).toOption.any
        (fun program => program.support.contains (constructorStart .object) &&
          program.classes.contains "// A\nfunction java_lang_Object() \x7b\x7d") = true := by
    decide +kernel
  obtain ⟨program, compiled, computed⟩ := (Option.any_eq_true _ _).mp computed
  rw [Bool.and_eq_true, List.contains_iff_mem, List.contains_iff_mem] at computed
  obtain ⟨inSupport, inClasses⟩ := computed
  have single : textLines (constructorStart .object) = [constructorStart .object] :=
    textLines_of_oneLine (by decide)
  have library : 0 < (allTextLines program.support).countP (beginsConstructor .object) :=
    List.countP_pos_iff.mpr ⟨_, List.mem_flatMap.mpr ⟨_, inSupport, single ▸ List.mem_cons_self⟩,
      by decide⟩
  have code : 0 < (allTextLines program.classes).countP (beginsConstructor .object) :=
    List.countP_pos_iff.mpr ⟨"function java_lang_Object() \x7b\x7d",
      List.mem_flatMap.mpr ⟨_, inClasses, by decide⟩, by decide⟩
  refine ⟨program, ok_of_toOption compiled, List.countP_pos_iff.mpr ⟨_, inSupport, by decide⟩, ?_⟩
  rw [text, textLines_unlines, lines, allTextLines, List.flatMap_append, List.flatMap_append,
    ← allTextLines, ← allTextLines, List.countP_append, List.countP_append, List.countP_append]
  omega

end Program

end Bytescript
