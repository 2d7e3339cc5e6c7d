import Bytescript.Assembly.Sketch
import Bytescript.Program.Compile
import Bytescript.Proofs.ClassFile.Descriptor
import Bytescript.Proofs.Program.EachStart
import Bytescript.Proofs.Program.SupportCalls
import Bytescript.Proofs.Script.Names
import Bytescript.Proofs.Translation.Outline

/-!
# Calls of static initializers

A program calls the static initializer of every class that declares one by a global function.  The
translation of the class defines this function if the initializer is static and has a body, which
is its code or is given.  A class file may also hold an initializer that is not static, which
becomes a property of the prototype, or one without code, which becomes nothing.  Both are called
all the same, and then the function is not there, unless a static method is named like it.
-/

set_option autoImplicit false

namespace Bytescript

open Script Translation

/-- Only one descriptor is that of methods without parameters and without a result. -/
theorem MethodType.parse_eq_void {descriptor : String} :
    MethodType.parse descriptor = .ok ⟨[], none⟩ ↔ descriptor = emptyDescriptor :=
  parse_eq_ok.trans (and_iff_right (by decide))

/-- The global function that static initializers of a class are called by. -/
def initializerFunction (owner : ClassName) : String :=
  staticFunction owner initializerName ⟨[], none⟩

/-- How a line begins that defines a global function. -/
def functionStart (function : String) : List Char := ("function " ++ function ++ "(").toList

/-- Lines define a global function if one of them begins it. -/
def DefinesFunction (lines : List String) (function : String) : Prop :=
  ∃ line ∈ lines, functionStart function <+: line.toList

/-- A method is written as the global function that static initializers of its class are called by:
it is static, has a body, and is such an initializer or named like one in the script. -/
structure Method.IsInitializerFunction (method : Method) (natives : NativeBodies)
    (owner : ClassName) : Prop where
  isStatic : method.access.isStatic = true
  hasBody : (∃ body, natives.find owner method = .ok (some body)) ∨ method.code.isSome = true
  name : method.name = initializerName ∨ method.name = "clinit"
  descriptor : method.descriptor = emptyDescriptor

/-! ## Lines that define the function -/

section Lines

variable {owner : ClassName} {line : String}

theorem startsFunction_of_functionStart {function : String}
    (begins : functionStart function <+: line.toList) : startsFunction line = true := by
  rw [startsFunction_iff]
  refine List.IsPrefix.trans ?_ begins
  rw [functionStart, String.toList_append, String.toList_append, List.append_assoc]
  exact List.prefix_append _ _

/-- The constructor function of the class is another function. -/
theorem not_functionStart_prefix_constructorStart :
    ¬ functionStart (initializerFunction owner) <+: (constructorStart owner).toList := by
  intro begins
  simp only [functionStart, constructorStart, String.toList_append, List.append_assoc] at begins
  have same := (eq_of_prefix_append_cons (fun _ => isNameChar_staticFunction)
    (fun _ => isNameChar_classIdentifier) (by decide) (by decide)
    ((List.prefix_append_right_inj _).mp begins)).1
  simp [staticFunction] at same

/-- The functions that begin like this. -/
theorem functionStart_prefix_functionHead_iff {name : String} {type : MethodType} {isStatic : Bool}
    {parameters : List String} :
    functionStart (initializerFunction owner) <+:
        (functionHead owner name type isStatic parameters).toList ↔
      isStatic = true ∧ (name = initializerName ∨ name = "clinit") ∧ type = ⟨[], none⟩ := by
  rw [← @staticFunction_eq_initializer_iff owner]
  cases isStatic with
  | false =>
    simp only [Bool.false_eq_true, false_and, iff_false]
    intro begins
    rw [functionHead_eq] at begins
    obtain ⟨rest, member⟩ := exists_functionOpening_toList owner name type _
    cases (startsFunction_of_member member).symm.trans (startsFunction_of_functionStart begins)
  | true =>
    simp only [functionStart, functionHead, String.toList_append, List.append_assoc, if_true,
      true_and, List.prefix_append_right_inj]
    constructor
    · intro begins
      exact (String.toList_injective (eq_of_prefix_append_cons (fun _ => isNameChar_staticFunction)
        (fun _ => isNameChar_staticFunction) (by decide) (by decide) begins).1).symm
    · intro same
      rw [same]
      exact (List.prefix_append_right_inj _).mpr (List.prefix_append _ _)

end Lines

/-! ## Classes -/

section Classes

variable {owner : ClassName} {natives : NativeBodies} {method : Method} {lines more : List String}
  {function : String}

theorem definesFunction_cons {line : String} : DefinesFunction (line :: lines) function ↔
    functionStart function <+: line.toList ∨ DefinesFunction lines function := by
  simp [DefinesFunction]

theorem definesFunction_append : DefinesFunction (lines ++ more) function ↔
    DefinesFunction lines function ∨ DefinesFunction more function := by
  simp [DefinesFunction, or_and_right, exists_or]

/-- Lines that do not begin a function define none. -/
theorem not_definesFunction (others : ∀ line ∈ lines, startsFunction line = false) :
    ¬ DefinesFunction lines function := by
  rintro ⟨line, member, begins⟩
  cases (others line member).symm.trans (startsFunction_of_functionStart begins)

/-- A given body of a method begins a function by itself. -/
def Method.TextDefines (method : Method) (natives : NativeBodies) (owner : ClassName)
    (function : String) : Prop :=
  ∃ body, natives.find owner method = .ok (some body) ∧
    functionStart function <+: (withoutLineBreak body.text).toList

theorem not_definesFunction_functionEnd (isStatic : Bool) :
    ¬ DefinesFunction [functionEnd isStatic] function := by
  refine not_definesFunction (List.forall_mem_singleton.mpr ?_)
  exact startsFunction_of_head? '}' (by cases isStatic <;> rfl) (by decide)

/-- What a method is written as defines the function if the method is static and has a body. -/
theorem definesFunction_of_hasFunction (written : HasFunction natives owner method lines) :
    DefinesFunction lines (initializerFunction owner) ↔
      method.IsInitializerFunction natives owner ∨
        method.TextDefines natives owner (initializerFunction owner) := by
  -- The first line of a function that has a body.
  have head {type : MethodType} {parameters : List String}
      (parsed : MethodType.parse method.descriptor = .ok type)
      (hasBody : (∃ body, natives.find owner method = .ok (some body)) ∨
        method.code.isSome = true) :
      functionStart (initializerFunction owner) <+:
          (functionHead owner method.name type method.access.isStatic parameters).toList ↔
        method.IsInitializerFunction natives owner := by
    rw [functionStart_prefix_functionHead_iff]
    constructor
    · rintro ⟨isStatic, name, rfl⟩
      exact ⟨isStatic, hasBody, name, MethodType.parse_eq_void.mp parsed⟩
    · rintro ⟨isStatic, _, name, descriptor⟩
      cases parsed.symm.trans (MethodType.parse_eq_void.mpr descriptor)
      exact ⟨isStatic, name, rfl⟩
  cases written with
  | @given body type found parsed =>
    have text : method.TextDefines natives owner (initializerFunction owner) ↔
        functionStart (initializerFunction owner) <+: (withoutLineBreak body.text).toList := by
      simp [Method.TextDefines, found]
    rw [givenLines, definesFunction_cons, definesFunction_cons, head parsed (.inl ⟨body, found⟩),
      text, iff_false_intro (not_definesFunction_functionEnd _), or_false]
  | missing found empty =>
    simp only [DefinesFunction, List.not_mem_nil, false_and, exists_false, false_iff, not_or]
    constructor
    · rintro ⟨_, ⟨body, given⟩ | present, _, _⟩
      · cases found.symm.trans given
      · simp [empty] at present
    · rintro ⟨body, given, _⟩
      cases found.symm.trans given
  | translated found present parsed indented _ =>
    have text : ¬ method.TextDefines natives owner (initializerFunction owner) := by
      rintro ⟨body, given, _⟩
      cases found.symm.trans given
    rw [List.cons_append, definesFunction_cons, definesFunction_append, head parsed (.inr present),
      iff_false_intro (not_definesFunction_functionEnd _), iff_false_intro text,
      iff_false_intro (not_definesFunction fun line listed =>
        startsFunction_of_head? '\t' (indented line listed) (by decide)), or_false]

/-- What a class is written as defines the function if one of its methods is written as it. -/
theorem Translation.HasOutline.definesFunction_iff {file : ClassFile} {fields statics : List String}
    {functions : List (List String)}
    (outline : HasOutline natives file lines fields statics functions) :
    DefinesFunction lines (initializerFunction file.name) ↔
      ∃ method ∈ file.methods, method.IsInitializerFunction natives file.name ∨
        method.TextDefines natives file.name (initializerFunction file.name) := by
  have head : ¬ DefinesFunction (headLines file fields statics)
      (initializerFunction file.name) := by
    rintro ⟨line, member, begins⟩
    have only : line ∈ [constructorStart file.name] := by
      rw [← outline.filter_startsFunction]
      exact List.mem_filter.mpr ⟨member, startsFunction_of_functionStart begins⟩
    rw [List.mem_singleton.mp only] at begins
    exact not_functionStart_prefix_constructorStart begins
  have methods : DefinesFunction functions.flatten (initializerFunction file.name) ↔
      ∃ method ∈ file.methods, method.IsInitializerFunction natives file.name ∨
        method.TextDefines natives file.name (initializerFunction file.name) := by
    constructor
    · rintro ⟨line, member, begins⟩
      obtain ⟨written, listed, inside⟩ := List.mem_flatten.mp member
      obtain ⟨method, declared, function⟩ := exists_of_forall₂_right outline.functions listed
      exact ⟨method, declared, (definesFunction_of_hasFunction function).mp ⟨line, inside, begins⟩⟩
    · rintro ⟨method, declared, defines⟩
      obtain ⟨written, listed, function⟩ := exists_of_forall₂_left outline.functions declared
      obtain ⟨line, inside, begins⟩ := (definesFunction_of_hasFunction function).mpr defines
      exact ⟨line, List.mem_flatten.mpr ⟨written, listed, inside⟩, begins⟩
  have comment : ¬ functionStart (initializerFunction file.name) <+:
      ("// " ++ file.name.text).toList := fun begins => by
    have other : startsFunction ("// " ++ file.name.text) = false :=
      startsFunction_of_head? '/' (by simp) (by decide)
    cases other.symm.trans (startsFunction_of_functionStart begins)
  rw [outline.lines, List.cons_append, definesFunction_cons, definesFunction_append,
    iff_false_intro comment, false_or, iff_false_intro head, false_or, methods]

end Classes

/-! ## Programs -/

namespace Program

variable {entries : List ClassName} {loader : Loader} {settings : Settings} {program : Program}

/-- **A start calls a function that is there exactly if the class has a static initializer with a
body.**  A program calls the initializers of the classes that declare one.  The lines of a class
define the function that it would be called by exactly if a static method with a body is written as
that function, or if a given body begins it. -/
theorem compile_startsDefined_iff (compiled : compile entries loader settings = .ok program) :
    ∃ (reach : Reachability) (order : List ClassName) (pieces : List (List String)),
      Reachability.closeOver entries loader settings.provided = .ok reach ∧
      StartOrder.orderOf reach.classes = .ok order ∧
      program.starts = order.map (fun name => initializerFunction name ++ "();") ∧
      (∀ name ∈ order, reach.classes.DeclaresInitializer name) ∧
      program.classes = pieces.flatten ∧
      List.Forall₂ (fun file lines => DefinesFunction lines (initializerFunction file.name) ↔
        ∃ method ∈ file.methods, method.IsInitializerFunction settings.natives file.name ∨
          method.TextDefines settings.natives file.name (initializerFunction file.name))
        reach.classes.files pieces := by
  obtain ⟨reach, closed, made⟩ := bind_eq_ok.mp compiled
  obtain ⟨pieces, translated, made⟩ := bind_eq_ok.mp made
  obtain ⟨order, ordered, made⟩ := bind_eq_ok.mp made
  cases made
  refine ⟨reach, order, pieces.map Written.lines, closed, ordered, rfl,
    fun name => (StartOrder.mem_orderOf_iff ordered).mp, List.flatMap_def, ?_⟩
  rw [List.forall₂_map_right_iff]
  refine (mapM_eq_ok.mp translated).imp fun file piece made => ?_
  obtain ⟨_, _, _, outline⟩ := exists_hasOutline (during_eq_ok.mp made)
  exact outline.definesFunction_iff

/-! ## Initializers that are not static, or have no code -/

/-- A class of some version whose only method is a static initializer by its name and descriptor. -/
def initializerLoader (version flags : Nat) (attributes : List Assembly.AttributeSketch) : Loader :=
  (ClassStore.ofList [(⟨"Main"⟩, Assembly.ClassSketch.bytes
    { Assembly.ClassSketch.empty ⟨"Main"⟩ (some .object) with
      version := ⟨version, 0⟩
      methods := [⟨flags, initializerName, emptyDescriptor, attributes⟩] })]).loader

/-- Code that only returns. -/
def returns : Assembly.AttributeSketch := .code 0 0 [0xb1] [] []

/-- Whether lines define a function can be computed. -/
instance (lines : List String) (function : String) : Decidable (DefinesFunction lines function) :=
  inferInstanceAs (Decidable (∃ line ∈ lines, functionStart function <+: line.toList))

/-- The function of a static initializer with code is there. -/
theorem compile_staticInitializer_startsDefined : ∃ program,
    compile [⟨"Main"⟩] (initializerLoader 52 0x0008 [returns]) .default = .ok program ∧
      program.starts = ["Main_clinitV();"] ∧
      DefinesFunction program.classes (initializerFunction ⟨"Main"⟩) := by
  have computed : (compile [⟨"Main"⟩] (initializerLoader 52 0x0008 [returns]) .default).toOption.any
      (fun program => program.starts = ["Main_clinitV();"]) = true := by
    decide +kernel
  obtain ⟨program, compiled, starts⟩ := (Option.any_eq_true _ _).mp computed
  have compiled := ok_of_toOption compiled
  refine ⟨program, compiled, of_decide_eq_true starts, ?_⟩
  obtain ⟨reach, order, pieces, closed, _, _, _, classes, defines⟩ :=
    compile_startsDefined_iff compiled
  have declared : (Reachability.closeOver [⟨"Main"⟩] (initializerLoader 52 0x0008 [returns])
      Settings.default.provided).toOption.all (fun reach => reach.classes.files.any fun file =>
        file.name = ⟨"Main"⟩ && file.methods.any fun method => method.access.isStatic
          && method.code.isSome && method.name = initializerName
          && method.descriptor = emptyDescriptor) = true := by
    decide +kernel
  obtain ⟨file, listed, declared⟩ := List.any_eq_true.mp
    ((Option.all_eq_true _ _).mp declared reach (by rw [closed]; rfl))
  simp only [Bool.and_eq_true, decide_eq_true_eq, List.any_eq_true] at declared
  obtain ⟨named, method, member, ⟨⟨isStatic, present⟩, name⟩, descriptor⟩ := declared
  obtain ⟨lines, piece, function⟩ := exists_of_forall₂_left defines listed
  obtain ⟨line, inside, begins⟩ := function.mpr
    ⟨method, member, .inl ⟨isStatic, .inr present, .inl name, descriptor⟩⟩
  exact ⟨line, classes ▸ List.mem_flatten.mpr ⟨lines, piece, inside⟩, named ▸ begins⟩

/-- The initializer of the class is called by a function that is not there. -/
def CallsUndefined (version flags : Nat) (attributes : List Assembly.AttributeSketch) : Prop :=
  ∃ program, compile [⟨"Main"⟩] (initializerLoader version flags attributes) .default =
      .ok program ∧
    program.starts = ["Main_clinitV();"] ∧
    ¬ DefinesFunction program.classes (initializerFunction ⟨"Main"⟩)

theorem callsUndefined_of_any {version flags : Nat} {attributes : List Assembly.AttributeSketch}
    (computed : (compile [⟨"Main"⟩] (initializerLoader version flags attributes)
      .default).toOption.any (fun program => program.starts = ["Main_clinitV();"] ∧
        ¬ DefinesFunction program.classes (initializerFunction ⟨"Main"⟩)) = true) :
    CallsUndefined version flags attributes := by
  obtain ⟨program, compiled, undefined⟩ := (Option.any_eq_true _ _).mp computed
  exact ⟨program, ok_of_toOption compiled, of_decide_eq_true undefined⟩

/-- The function of an initializer that is not static is called and is not there, also in a class of
a version in which it need not be static.  Neither is the one of an initializer without code. -/
theorem compile_otherInitializer_undefined :
    CallsUndefined 49 0 [returns] ∧ CallsUndefined 52 0 [returns] ∧ CallsUndefined 52 0x0408 [] :=
  ⟨callsUndefined_of_any (by decide +kernel), callsUndefined_of_any (by decide +kernel),
    callsUndefined_of_any (by decide +kernel)⟩

end Program

end Bytescript
