import Bytescript.Assembly.Sketch
import Bytescript.Proofs.Program.ProgramText

/-!
# Everything that a program calls is there

The part of the support library that goes into a program comes from the features that its classes
record and from the builtin classes that it refers to.  It defines every function that the lines of
the classes call, the function that links them, and all that its own text names.  Nothing is known
of bodies that are given in the script itself and of what the name of a class brings if it has
several lines, and a super class that has the name of the library is taken for it.
-/

set_option autoImplicit false

namespace Bytescript.Program

open Script Support Translation

/-- All functions that a line calls are defined by the features of a set. -/
def CallsDefined (set : FeatureSet) (line : String) : Prop :=
  ∀ name ∈ calledIn line, set.Defines ⟨name, true⟩

/-- All functions that a line of a class calls are defined, or the super class has the name of the
library and is called like a function of it. -/
def CallsDefinedOrParent (set : FeatureSet) (file : ClassFile) (line : String) : Prop :=
  ∀ name ∈ calledIn line, set.Defines ⟨name, true⟩ ∨
    name = "call".toList ∧ ∃ parent ∈ parentOf file, classIdentifier parent = "$vm"

/-- The features of a set are what a program includes, and they define all that the program calls
of the support library. -/
structure IsSupportedBy (program : Program) (reach : Reachability) (settings : Settings)
    (set : FeatureSet) : Prop where
  support : program.support = set.lines settings.provided.contains reach.classes.contains
  classes : ∃ texts, program.HasTexts texts ∧
    List.Forall₂ (fun file => ClassText.Consists settings.natives (CallsDefinedOrParent set file)
      (fun _ => CallsDefined set) file) reach.classes.files texts
  behind : ∀ line ∈ linkLine :: program.starts, CallsDefined set line
  within : ∀ line ∈ program.support, ∀ mention ∈ Mention.allIn line.toList, set.Defines mention

variable {reach : Reachability} {settings : Settings} {program : Program} {pieces : List Written}

/-- What a class refers to is written with calls that are defined. -/
theorem exists_callsDefined {set : FeatureSet} {file : ClassFile} {piece : Written}
    (translated : translateClass reach.classes settings.natives file = .ok piece)
    (registers : set.Defines (.ofFunction .defineClass))
    (recorded : ∀ function : Function, function.feature ∈ piece.features →
      set.Defines (.ofFunction function)) :
    ∃ text : ClassText, text.lines = allTextLines piece.lines ∧
      text.Consists settings.natives (CallsDefinedOrParent set file) (fun _ => CallsDefined set)
        file := by
  have head : AllowsHead reach.classes file (Reference.CallsOnly fun name =>
      set.Defines ⟨name, true⟩ ∨
        name = "call".toList ∧ ∃ parent ∈ parentOf file, classIdentifier parent = "$vm") :=
    { own := trivial
      above := fun parent above library => .inr ⟨rfl, parent, above, library⟩
      interfaces := fun _ _ => trivial
      registers := .inl registers
      fields := fun field _ => callsOnly_instanceProperty reach.classes file.name field.name }
  have inside (_ : Method) : CallsAllowed (Reference.CallsOnly fun name =>
      set.Defines ⟨name, true⟩) piece.features := recorded
  obtain ⟨text, lines, consists⟩ := exists_consists_of_translateClass translated head
    (fun _ => trivial) inside fun _ _ _ _ _ _ => RefersTo.callsOnly
  refine ⟨text, lines, consists.imp (fun line written => ?_) fun method line written => ?_⟩
  · exact (written.reads fun _ => id).calls
  · exact (written.reads fun _ => id).calls

/-- The set of features that a program includes defines all that it calls. -/
theorem IsMadeOf.isSupportedBy (made : program.IsMadeOf reach settings pieces)
    (compiled : ofReachability reach settings = .ok program) :
    program.IsSupportedBy reach settings (usedFeatures reach pieces) := by
  -- The class model is always there, and what a class records is there for it.
  have always {function : Function} (model : function.feature = .classModel) :
      (usedFeatures reach pieces).Defines (.ofFunction function) :=
    FeatureSet.defines_of_finds (List.mem_cons.mpr (.inl model)) function.finds
  have recorded {piece : Written} (listed : piece ∈ pieces) (function : Function)
      (needed : function.feature ∈ piece.features) :
      (usedFeatures reach pieces).Defines (.ofFunction function) :=
    FeatureSet.defines_of_finds
      (List.mem_append_right _ (List.mem_flatMap.mpr ⟨piece, listed, needed⟩)) function.finds
  refine ⟨made.support, ?_, ?_, ?_⟩
  · exact made.exists_hasTexts compiled fun file _ piece listed translated =>
      exists_callsDefined translated (always rfl) (recorded listed)
  · have link : calledIn linkLine = ["link".toList] := by decide
    have linked : (usedFeatures reach pieces).Defines (.ofFunction .link) := always rfl
    refine List.forall_mem_cons.mpr ⟨?_, fun line listed => ?_⟩
    · rw [CallsDefined, link]
      exact List.forall_mem_singleton.mpr linked
    · obtain ⟨name, rfl⟩ := exists_startLine_of_mem_starts compiled listed
      exact (leads_startLine name).calls
  · intro line written mention member
    rw [made.support] at written
    exact FeatureSet.defines_of_mem_lines written member

/-- **Whatever a program calls of the support library, it includes.**  The functions that the lines
of its classes call, the one that links them, and all that the included text itself names are
defined by the features that it includes. -/
theorem compile_isSupported {entries : List ClassName} {loader : Loader}
    (compiled : compile entries loader settings = .ok program) :
    ∃ reach set, Reachability.closeOver entries loader settings.provided = .ok reach ∧
      program.IsSupportedBy reach settings set := by
  obtain ⟨reach, closed, compiled⟩ := bind_eq_ok.mp compiled
  obtain ⟨pieces, made⟩ := exists_isMadeOf compiled
  exact ⟨reach, _, closed, made.isSupportedBy compiled⟩

/-! ## A division with a handler -/

/-- A class whose only method divides, and gives zero if that fails. -/
def quotientLoader : Loader :=
  (ClassStore.ofList [(⟨"Main"⟩, Assembly.ClassSketch.bytes
    { Assembly.ClassSketch.empty ⟨"Main"⟩ (some .object) with
      methods := [⟨0x09, "divide", "(II)I",
        [.code 2 2 [0x1a, 0x1b, 0x6c, 0xac, 0x57, 0x03, 0xac]
          [⟨0, 3, 4, some ⟨"java/lang/ArithmeticException"⟩⟩] []]⟩] })]).loader

theorem compile_quotient_isSupported :
    ∃ program, compile [⟨"Main"⟩] quotientLoader .default = .ok program ∧
      ∃ reach set, Reachability.closeOver [⟨"Main"⟩] quotientLoader Settings.default.provided =
          .ok reach ∧
        program.IsSupportedBy reach .default set := by
  have computed : (compile [⟨"Main"⟩] quotientLoader .default).toOption.isSome = true := by
    decide +kernel
  obtain ⟨program, compiled⟩ := Option.isSome_iff_exists.mp computed
  have compiled := ok_of_toOption compiled
  exact ⟨program, compiled, compile_isSupported compiled⟩

/-! ## Classes that call what is not there -/

/-- An empty class of a given name, and its super class. -/
def namedLoader (name parent : ClassName) : Loader :=
  (ClassStore.ofList [(name, (Assembly.ClassSketch.empty name (some parent)).bytes),
    (parent, (Assembly.ClassSketch.empty parent (some .object)).bytes)]).loader

theorem exists_compiled (entries : List ClassName) (loader : Loader) (settings : Settings)
    (line : String) (computed : (compile entries loader settings).toOption.any
      (fun program => program.classes.contains line) = true) :
    ∃ program, compile entries loader settings = .ok program ∧
      textLines line ⊆ textLines program.text := by
  obtain ⟨program, compiled, listed⟩ := (Option.any_eq_true _ _).mp computed
  have written : line ∈ program.lines :=
    List.mem_append_left _ (List.mem_append_right _ (List.contains_iff_mem.mp listed))
  exact ⟨program, ok_of_toOption compiled, textLines_subset_text written⟩

/-- The second line of the name of a class is no comment, and may call a function that no feature
defines. -/
theorem compile_twoLines_callsUndefined : ∃ program,
    compile [⟨"A\n$vm.call();"⟩] (namedLoader ⟨"A\n$vm.call();"⟩ .object) .default = .ok program ∧
      ∃ line ∈ textLines program.text, ∃ name ∈ calledIn line,
        ∀ set : FeatureSet, ¬ set.Defines ⟨name, true⟩ := by
  obtain ⟨program, compiled, lines⟩ := exists_compiled [⟨"A\n$vm.call();"⟩]
    (namedLoader ⟨"A\n$vm.call();"⟩ .object) .default "// A\n$vm.call();" (by decide +kernel)
  exact ⟨program, compiled, "$vm.call();", lines (by decide), "call".toList, by decide,
    FeatureSet.not_defines_call⟩

/-- So does the constructor function of a class whose super class has the name of the library. -/
theorem compile_libraryParent_callsUndefined : ∃ program,
    compile [⟨"A"⟩] (namedLoader ⟨"A"⟩ ⟨"$vm"⟩) .default = .ok program ∧
      ∃ line ∈ textLines program.text, ∃ name ∈ calledIn line,
        ∀ set : FeatureSet, ¬ set.Defines ⟨name, true⟩ := by
  obtain ⟨program, compiled, lines⟩ := exists_compiled [⟨"A"⟩] (namedLoader ⟨"A"⟩ ⟨"$vm"⟩)
    .default "\t$vm.call(this);" (by decide +kernel)
  exact ⟨program, compiled, "\t$vm.call(this);", lines (by decide), "call".toList, by decide,
    FeatureSet.not_defines_call⟩

end Bytescript.Program
