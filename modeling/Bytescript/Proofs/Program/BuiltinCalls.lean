import Bytescript.Proofs.Flow.Tiling
import Bytescript.Proofs.Program.Closure
import Bytescript.Proofs.Program.SupportCalls
import Bytescript.Proofs.Support.Prototype

/-!
# Calls of methods of builtin classes are answered

A class that a program calls a method of is one that it refers to, so if it is builtin, its feature
goes into the program.  With the feature come all methods of the class that are not abstract, those
that it inherits included, apart from the one that tells the class of an object.  That one comes
with the class literals.  A call for which the class of the receiver chooses makes the program
include them, but an exact call does not, so a class that asks its super class for that method may
find nothing there.
-/

set_option autoImplicit false

namespace Bytescript

open Script Support Translation

/-! ## Calls -/

namespace Instruction.CallsMethod

variable {instruction : Instruction} {method : MemberRef} {isExact : Bool}

theorem names (calls : instruction.CallsMethod method isExact) :
    instruction.Names method.owner := by
  cases calls <;> constructor

/-- What tells the class of an object is recorded for a call for which the class of the receiver
chooses. -/
theorem classLiterals_mem (calls : instruction.CallsMethod method false)
    (asks : isClassOf method = true) : .classLiterals ∈ instructionFeatures instruction := by
  have recorded : .classLiterals ∈ virtualCallFeatures method := by
    rw [virtualCallFeatures, if_pos asks]
    exact List.mem_append_left _ (List.mem_singleton_self _)
  cases calls <;> exact recorded

end Instruction.CallsMethod

/-- The class at which the search for a called method ends.  Arrays have the methods of the root
class. -/
def ClassTable.calledOwner (table : ClassTable) (method : MemberRef) (isExact : Bool) :
    ClassName :=
  if !isExact && method.owner.isArray then .object
  else table.resolveMethod method.owner method.name method.descriptor

/-- The search for a method ends where it began or at the super class of a class of the table. -/
theorem ClassTable.resolveMethod_eq_or_super (table : ClassTable) (name : ClassName)
    (method descriptor : String) :
    table.resolveMethod name method descriptor = name ∨ ∃ file ∈ table.files,
      file.superClass = some (table.resolveMethod name method descriptor) := by
  have reached (fuel : Nat) (here : ClassName)
      (start : here = name ∨ ∃ file ∈ table.files, file.superClass = some here) :
      table.findMethod name method descriptor fuel here = name ∨ ∃ file ∈ table.files,
        file.superClass = some (table.findMethod name method descriptor fuel here) := by
    fun_induction table.findMethod name method descriptor fuel here with
    | case1 => exact .inl rfl
    | case2 => exact start
    | case3 => exact start
    | case4 => exact .inl rfl
    | case5 => exact .inl rfl
    | case6 fuel here file found _ _ superClass above ih =>
      exact ih (.inr ⟨file, List.mem_of_find?_eq_some found, above⟩)
  exact reached _ name (.inl rfl)

namespace Reachability

variable {lookup : Lookup} {entries provided : List ClassName} {reach : Reachability}
  {natives : NativeBodies} {file : ClassFile} {placed : Placed}

/-- An instruction stands in a block that is translated, in a method whose body is not given. -/
inductive Translates (reach : Reachability) (natives : NativeBodies) (file : ClassFile)
    (placed : Placed) : Prop where
  | intro {method : Method} {code : Code} {flow : Flow.ControlFlow} {codes : Codes} {block : Nat}
    {content : Flow.Block} {blockCode : BlockCode} (listed : file ∈ reach.classes.files)
    (declared : method ∈ file.methods) (found : natives.find file.name method = .ok none)
    (body : method.code = some code)
    (prepared : prepare ⟨reach.classes, file.name, method.name⟩ file.pool code = .ok (flow, codes))
    (coded : codes.getD block none = some blockCode) (here : flow.blocks[block]? = some content)
    (member : placed ∈ content.body)

/-- A translated instruction calls a method that a builtin class has and that is not abstract. -/
structure CallsBuiltin (reach : Reachability) (natives : NativeBodies) (method : MemberRef)
    (isExact : Bool) (owner : Builtin) : Prop where
  called : ∃ file placed, reach.Translates natives file placed ∧
    placed.instruction.CallsMethod method isExact
  found : Builtin.find? (reach.classes.calledOwner method isExact) = some owner
  has : Builtin.hasMethod? owner.name method.name method.descriptor = some true
  concrete : ∀ declarer, Builtin.FindsMethod method.name method.descriptor owner declarer →
    declarer.isInterface = false

theorem Translates.listed (translates : reach.Translates natives file placed) :
    file ∈ reach.classes.files := by
  obtain ⟨listed, _, _, _, _, _, _, _⟩ := translates
  exact listed

/-- A class refers to the classes that its translated instructions name. -/
theorem Translates.refersTo (translates : reach.Translates natives file placed)
    {name element : ClassName} (named : placed.instruction.Names name)
    (elements : name.elementClass? = some element) : file.RefersTo element := by
  obtain ⟨_, declared, _, body, prepared, _, here, member⟩ := translates
  obtain ⟨instructions, decoded, built, _⟩ := prepare_eq_ok.mp prepared
  have present : placed ∈ instructions := by
    rw [← (Flow.ControlFlow.build_builtFrom built).tiles]
    exact List.mem_flatMap.mpr ⟨_, List.mem_of_getElem? (Array.getElem?_toList ▸ here), member⟩
  exact .operand declared body decoded present named elements

/-- Whether some instruction that is translated is as described. -/
def anyTranslated (reach : Reachability) (natives : NativeBodies) (holds : Placed → Bool) : Bool :=
  reach.classes.files.any fun file => file.methods.any fun method =>
    (natives.find file.name method).toOption.any Option.isNone && method.code.any fun code =>
      (prepare ⟨reach.classes, file.name, method.name⟩ file.pool code).toOption.any fun prepared =>
        prepared.1.blocks.toList.zipIdx.any fun content =>
          (prepared.2.getD content.2 none).isSome && content.1.body.any holds

theorem anyTranslated_eq_true {holds : Placed → Bool} : reach.anyTranslated natives holds = true ↔
    ∃ file placed, reach.Translates natives file placed ∧ holds placed = true := by
  constructor
  · intro present
    obtain ⟨file, listed, present⟩ := List.any_eq_true.mp present
    obtain ⟨method, declared, present⟩ := List.any_eq_true.mp present
    obtain ⟨missing, present⟩ := (Bool.and_eq_true _ _).mp present
    obtain ⟨given, found, none⟩ := (Option.any_eq_true _ _).mp missing
    obtain ⟨code, body, present⟩ := (Option.any_eq_true _ _).mp present
    obtain ⟨prepared, made, present⟩ := (Option.any_eq_true _ _).mp present
    obtain ⟨content, here, present⟩ := List.any_eq_true.mp present
    obtain ⟨coded, present⟩ := (Bool.and_eq_true _ _).mp present
    obtain ⟨blockCode, coded⟩ := Option.isSome_iff_exists.mp coded
    obtain ⟨placed, member, holds⟩ := List.any_eq_true.mp present
    rw [Option.isNone_iff_eq_none.mp none] at found
    rw [List.mem_zipIdx_iff_getElem?, Array.getElem?_toList] at here
    exact ⟨file, placed, .intro listed declared (ok_of_toOption found) body (ok_of_toOption made)
      coded here member, holds⟩
  · rintro ⟨file, placed, ⟨listed, declared, found, body, prepared, coded, here, member⟩, holds⟩
    rw [← Array.getElem?_toList, ← List.mem_zipIdx_iff_getElem? (x := (_, _))] at here
    have coded := Option.isSome_iff_exists.mpr ⟨_, coded⟩
    have inBlock := (Bool.and_eq_true _ _).mpr ⟨coded, List.any_eq_true.mpr ⟨placed, member, holds⟩⟩
    refine List.any_eq_true.mpr ⟨file, listed, List.any_eq_true.mpr ⟨_, declared, ?_⟩⟩
    rw [found, body, Option.any_some, prepared]
    exact List.any_eq_true.mpr ⟨_, here, inBlock⟩

/-- Whatever a class that was found refers to was found as well, or is recorded as provided. -/
theorem IsClosure.mem_of_refersTo (closure : IsClosure lookup entries provided reach)
    {name : ClassName} (listed : file ∈ reach.classes.files) (refers : file.RefersTo name) :
    name ∈ reach.classes.names ∨ name ∈ reach.provided := by
  have closed : IsClosed lookup entries provided
    {name | name ∈ reach.classes.names ∨ name ∈ reach.provided} := closure.least.1
  have own : file.name ∈ reach.classes.names := List.mem_map_of_mem listed
  exact closed.reference _ (.inl own) (closure.classes_notMem _ own) file
    (closure.loaded file listed) name refers

/-- What is provided and a class refers to is recorded. -/
theorem IsClosure.mem_provided_of_refersTo (closure : IsClosure lookup entries provided reach)
    {name : ClassName} (listed : file ∈ reach.classes.files) (refers : file.RefersTo name)
    (outside : name ∈ provided) : name ∈ reach.provided :=
  (closure.mem_of_refersTo listed refers).resolve_left fun inside =>
    closure.classes_notMem _ inside outside

end Reachability

namespace Support.Builtin

variable {owner : Builtin}

theorem name_of_find? {name : ClassName} (found : find? name = some owner) : owner.name = name := by
  simpa using List.find?_some found

/-- The names of builtin classes are not those of arrays. -/
theorem elementClass?_name (listed : owner ∈ all) : owner.name.elementClass? = some owner.name := by
  have checked : ∀ builtin ∈ all, builtin.name.isArray = false := by decide +kernel
  rw [ClassName.elementClass?, checked owner listed]
  rfl

end Support.Builtin

namespace Program

variable {lookup : Lookup} {entries : List ClassName} {reach : Reachability}
  {settings : Settings} {program : Program} {pieces : List Written} {method : MemberRef}
  {isExact : Bool} {owner : Builtin}

/-- A called builtin class is the root class, as which arrays are called, or is recorded. -/
theorem owner_mem_provided (closure : reach.IsClosure lookup entries settings.provided)
    (left : settings.provided = Builtin.names)
    (calls : reach.CallsBuiltin settings.natives method isExact owner) :
    owner.name = .object ∨ owner.name ∈ reach.provided := by
  obtain ⟨file, placed, translates, called⟩ := calls.called
  have listed := Builtin.mem_all_of_find? calls.found
  have named := Builtin.name_of_find? calls.found
  have outside : owner.name ∈ settings.provided := left ▸ List.mem_map_of_mem listed
  rw [ClassTable.calledOwner] at named
  split at named
  · exact .inl named
  · refine .inr ?_
    rcases reach.classes.resolveMethod_eq_or_super method.owner method.name method.descriptor with
      same | ⟨heir, known, above⟩
    · have mentions : placed.instruction.Names owner.name := by
        rw [named, same]
        exact called.names
      exact closure.mem_provided_of_refersTo translates.listed
        (translates.refersTo mentions (Builtin.elementClass?_name listed)) outside
    · exact closure.mem_provided_of_refersTo known (.super (named ▸ above)) outside

theorem feature_mem_usedFeatures (recorded : owner.name = .object ∨ owner.name ∈ reach.provided)
    (listed : Builtin.find? owner.name = some owner) :
    owner.feature ∈ (usedFeatures reach pieces).members := by
  refine FeatureSet.mem_insertAll.mpr ⟨owner.feature, ?_, owner.feature.mem_closure_self⟩
  rcases recorded with root | recorded
  · have model : (Builtin.find? .object).map Builtin.feature = some .classModel := rfl
    rw [← root, listed, Option.map_some, Option.some.injEq] at model
    exact model ▸ List.mem_cons_self
  · refine .tail _ (List.mem_append_left _ (List.mem_filterMap.mpr ⟨_, recorded, ?_⟩))
    rw [Builtin.featureOf?, listed]
    rfl

/-- A call for which the class of the receiver chooses makes its class record that the class of an
object is asked for. -/
theorem IsMadeOf.classLiterals_mem (made : program.IsMadeOf reach settings pieces)
    {file : ClassFile} {placed : Placed}
    (translates : reach.Translates settings.natives file placed)
    (called : placed.instruction.CallsMethod method false) (asks : isClassOf method = true) :
    .classLiterals ∈ (usedFeatures reach pieces).members := by
  obtain ⟨listed, declared, found, body, prepared, coded, here, member⟩ := translates
  obtain ⟨piece, present, translated⟩ := exists_of_forall₂_left made.translated listed
  obtain ⟨parameters, recorded⟩ :=
    featuresOf_subset_of_translateClass translated declared found body prepared
  refine FeatureSet.mem_insertAll.mpr ⟨.classLiterals, ?_, Feature.mem_closure_self _⟩
  refine List.mem_append_right _ (List.mem_flatMap.mpr ⟨piece, present, recorded ?_⟩)
  exact instructionFeatures_subset coded here member (called.classLiterals_mem asks)

/-- What a program includes answers the calls of concrete methods of builtin classes. -/
theorem IsMadeOf.answers_iff (made : program.IsMadeOf reach settings pieces)
    (closure : reach.IsClosure lookup entries settings.provided)
    (left : settings.provided = Builtin.names)
    (calls : reach.CallsBuiltin settings.natives method isExact owner) :
    ∃ type, MethodType.parse method.descriptor = .ok type ∧
      (owner.Answers isExact program.support method.name type ↔
        (isExact = true → owner.isString = false ∧ (isClassOf method = true →
          .classLiterals ∈ (usedFeatures reach pieces).members))) := by
  have listed := Builtin.mem_all_of_find? calls.found
  have known := calls.found
  rw [← Builtin.name_of_find? calls.found] at known
  obtain ⟨declarer, finds⟩ : ∃ declarer,
      Builtin.FindsMethod method.name method.descriptor owner declarer := by
    have has := calls.has
    rw [Builtin.hasMethod?, known] at has
    exact Builtin.exists_findsMethod (Option.some.inj has)
  have all : ∀ builtin ∈ Builtin.all, settings.provided.contains builtin.name = true :=
    fun builtin member => List.contains_iff_mem.mpr (left ▸ List.mem_map_of_mem member)
  obtain ⟨type, parsed, answers⟩ := FeatureSet.answers_iff all listed
    (feature_mem_usedFeatures (owner_mem_provided closure left calls) known) finds
    (calls.concrete declarer finds)
  refine ⟨type, parsed, ?_⟩
  rw [made.support, usedFeatures, answers, ← usedFeatures]
  cases isExact with
  | true => simp
  | false =>
    obtain ⟨file, placed, translates, called⟩ := calls.called
    simpa using made.classLiterals_mem translates called

/-- The class literals are there if the class of classes is referred to or a class records them. -/
theorem classLiterals_mem_usedFeatures : .classLiterals ∈ (usedFeatures reach pieces).members ↔
    (∃ name ∈ reach.provided, Builtin.featureOf? name = some .classLiterals) ∨
      ∃ piece ∈ pieces, .classLiterals ∈ piece.features := by
  have alone (feature : Feature) : .classLiterals ∈ feature.closure ↔ .classLiterals = feature := by
    cases feature <;> decide
  rw [usedFeatures, FeatureSet.mem_insertAll]
  simp [alone]

/-- **Calls of concrete methods of builtin classes are answered, with few exceptions.**  If all
builtin classes are left to the support library, then whatever instruction of a translated block
calls a method that such a class has, the text that the program includes defines the property that
the call reads.  Exceptions are exact calls of the methods of strings, which have no subclasses, and
of the method that tells the class of an object, which is there only if something else makes the
program include the class literals. -/
theorem compile_answers_iff {loader : Loader}
    (compiled : compile entries loader settings = .ok program)
    (left : settings.provided = Builtin.names) :
    ∃ reach pieces, Reachability.closeOver entries loader settings.provided = .ok reach ∧
      program.IsMadeOf reach settings pieces ∧
      ∀ method isExact owner, reach.CallsBuiltin settings.natives method isExact owner →
        ∃ type, MethodType.parse method.descriptor = .ok type ∧
          (owner.Answers isExact program.support method.name type ↔
            (isExact = true → owner.isString = false ∧ (isClassOf method = true →
              .classLiterals ∈ (usedFeatures reach pieces).members))) := by
  obtain ⟨reach, closed, made⟩ := bind_eq_ok.mp compiled
  obtain ⟨pieces, made⟩ := exists_isMadeOf made
  have closure := (Reachability.closeOver_eq_ok.mp closed).isClosure
  exact ⟨reach, pieces, closed, made, fun _ _ _ => made.answers_iff closure left⟩

/-! ## Asking an object for its class -/

/-- The method that tells the class of an object, as a method of the root class. -/
def classOfObject : MemberRef := ⟨.object, "getClass", classOfDescriptor⟩

/-- A class whose only method asks its object for its class, by an instruction that refers to the
method with the sixth entry of the pool. -/
def classOfLoader (opcode : UInt8) : Loader :=
  let pool := ((Assembly.PoolBuilder.methodRef classOfObject).run .empty).2
  let sketch : Assembly.ClassSketch := { Assembly.ClassSketch.empty ⟨"Main"⟩ (some .object) with
    methods := [⟨0x01, "classOf", classOfDescriptor,
      [.code 1 1 [0x2a, opcode, 0, 6, 0xb0] [] []]⟩] }
  (ClassStore.ofList [(⟨"Main"⟩, (sketch.store.run pool).1.bytes)]).loader

/-- An instruction that calls this method calls the one of the root class. -/
theorem exists_callsBuiltin {natives : NativeBodies} {instruction : Instruction}
    (called : instruction.CallsMethod classOfObject isExact)
    (present : reach.anyTranslated natives (fun placed => placed.instruction = instruction) = true)
    (ends : reach.classes.calledOwner classOfObject isExact = .object) :
    ∃ owner, reach.CallsBuiltin natives classOfObject isExact owner ∧ owner.name = .object := by
  obtain ⟨root, known, declared, concrete⟩ : ∃ root, Builtin.find? .object = some root ∧
      root.declares "getClass" classOfDescriptor = true ∧ root.isInterface = false :=
    ⟨_, rfl, rfl, rfl⟩
  have named := Builtin.name_of_find? known
  obtain ⟨file, placed, translates, same⟩ :=
    Reachability.anyTranslated_eq_true.mp present
  refine ⟨root, ⟨⟨file, placed, translates, of_decide_eq_true same ▸ called⟩, ends ▸ known, ?_, ?_⟩,
    named⟩
  · rw [named]
    rfl
  · intro declarer finds
    cases finds with
    | here => exact concrete
    | above undeclared => cases undeclared.symm.trans declared

/-- What can be computed of the class and what it needs shows that the program is there and makes
the call. -/
theorem exists_program_callsBuiltin (opcode : UInt8) {instruction : Instruction}
    (called : instruction.CallsMethod classOfObject isExact) (holds : Reachability → Bool)
    (compiles : (compile [⟨"Main"⟩] (classOfLoader opcode) .default).toOption.isSome = true)
    (computed : ((Reachability.closeOver [⟨"Main"⟩] (classOfLoader opcode)
      Builtin.names).toOption.any fun reach =>
        reach.anyTranslated .empty (fun placed => placed.instruction = instruction) &&
          reach.classes.calledOwner classOfObject isExact = .object && holds reach) = true) :
    ∃ program reach owner, compile [⟨"Main"⟩] (classOfLoader opcode) .default = .ok program ∧
      Reachability.closeOver [⟨"Main"⟩] (classOfLoader opcode) Builtin.names = .ok reach ∧
      reach.CallsBuiltin .empty classOfObject isExact owner ∧ owner.name = .object ∧
      holds reach = true := by
  obtain ⟨program, compiled⟩ := Option.isSome_iff_exists.mp compiles
  obtain ⟨reach, closed, computed⟩ := (Option.any_eq_true _ _).mp computed
  simp only [Bool.and_eq_true, decide_eq_true_eq] at computed
  obtain ⟨⟨present, ends⟩, holds⟩ := computed
  obtain ⟨owner, calls, named⟩ := exists_callsBuiltin called present ends
  exact ⟨program, reach, owner, ok_of_toOption compiled, ok_of_toOption closed, calls, named, holds⟩

/-- If the class of the receiver chooses, the property is there. -/
theorem compile_chosenClassOf_answers : ∃ program reach owner type,
    compile [⟨"Main"⟩] (classOfLoader 0xb6) .default = .ok program ∧
      Reachability.closeOver [⟨"Main"⟩] (classOfLoader 0xb6) Builtin.names = .ok reach ∧
      reach.CallsBuiltin .empty classOfObject false owner ∧ owner.name = .object ∧
      MethodType.parse classOfDescriptor = .ok type ∧
      owner.Answers false program.support "getClass" type := by
  obtain ⟨program, reach, owner, compiled, closed, calls, named, _⟩ :=
    exists_program_callsBuiltin 0xb6 (.virtual _) (fun _ => true) (by decide +kernel)
      (by decide +kernel)
  obtain ⟨reach', pieces, closed', _, answers⟩ := compile_answers_iff compiled rfl
  cases closed.symm.trans closed'
  obtain ⟨type, parsed, answered⟩ := answers _ _ _ calls
  have answers := answered.mpr (by simp)
  exact ⟨program, reach, owner, type, compiled, closed, calls, named, parsed, answers⟩

/-- An exact call reads a property that is not there. -/
theorem compile_exactClassOf_unanswered : ∃ program reach owner type,
    compile [⟨"Main"⟩] (classOfLoader 0xb7) .default = .ok program ∧
      Reachability.closeOver [⟨"Main"⟩] (classOfLoader 0xb7) Builtin.names = .ok reach ∧
      reach.CallsBuiltin .empty classOfObject true owner ∧ owner.name = .object ∧
      MethodType.parse classOfDescriptor = .ok type ∧
      ¬ owner.Answers true program.support "getClass" type := by
  obtain ⟨program, reach, owner, compiled, closed, calls, named, unused⟩ :=
    exists_program_callsBuiltin 0xb7 (.special _ false)
      (fun reach => reach.provided = [.object] && reach.classes.files.all fun file =>
        (translateClass reach.classes .empty file).toOption.all fun piece =>
          !piece.features.contains .classLiterals) (by decide +kernel) (by decide +kernel)
  obtain ⟨provided, unused⟩ := (Bool.and_eq_true _ _).mp unused
  obtain ⟨reach', closed', made⟩ := bind_eq_ok.mp compiled
  cases closed.symm.trans closed'
  obtain ⟨pieces, made⟩ := exists_isMadeOf made
  have closure := (Reachability.closeOver_eq_ok.mp closed).isClosure
  obtain ⟨type, parsed, answered⟩ := made.answers_iff closure rfl calls
  refine ⟨program, reach, owner, type, compiled, closed, calls, named, parsed, fun answers => ?_⟩
  have included := (answered.mp answers rfl).2 (by decide)
  rcases classLiterals_mem_usedFeatures.mp included with ⟨name, recorded, literals⟩ |
    ⟨piece, listed, literals⟩
  · rw [of_decide_eq_true provided, List.mem_singleton] at recorded
    rw [recorded] at literals
    exact absurd literals (by decide +kernel)
  · obtain ⟨file, here, translated⟩ := exists_of_forall₂_right made.translated listed
    have missing := List.all_eq_true.mp unused file here
    rw [show translateClass reach.classes .empty file = .ok piece from translated] at missing
    simp [Except.toOption, literals] at missing

end Program

end Bytescript
