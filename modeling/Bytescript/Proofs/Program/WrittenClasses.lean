import Bytescript.Proofs.Program.BuiltinCalls

/-!
# The classes that a program names are there

The search for classes looks at the classes that instructions name, but the script names the classes
that declare what an instruction uses.  These are found by going up from the class that the
instruction names, to super classes and interfaces.  Every class on the way is one that the search
found and looked into, so it found what stands above it as well, or that is provided.  Nothing is
known of bodies that are given and of what the name of a class brings if it has several lines.
-/

set_option autoImplicit false

namespace Bytescript

open Script Support Translation Instruction

/-! ## Where searches end -/

namespace ClassTable

variable {table : ClassTable} {name : ClassName}

/-- A class stands directly above a class of the table. -/
def IsAbove (table : ClassTable) (name : ClassName) : Prop :=
  ∃ file ∈ table.files, file.superClass = some name ∨ name ∈ file.interfaces

theorem findField_eq_some {field : String} {fuel : Nat} {owner : ClassName}
    (found : table.findField field fuel name = some owner) :
    owner = name ∨ table.IsAbove owner := by
  induction fuel generalizing name with
  | zero => cases found
  | succ fuel ih =>
    rw [findField] at found
    split at found
    next => cases found
    next file known =>
      split at found
      · exact .inl (Option.some.inj found).symm
      · obtain ⟨parent, listed, found⟩ := List.exists_of_findSome?_eq_some found
        rcases ih found with rfl | above
        · have member : file ∈ table.files := List.mem_of_find?_eq_some known
          rcases List.mem_append.mp listed with interface | superClass
          · exact .inr ⟨file, member, .inr interface⟩
          · exact .inr ⟨file, member, .inl (Option.mem_toList.mp superClass)⟩
        · exact .inr above

/-- The search for a field ends where it began or above a class of the table. -/
theorem resolveField_eq_or_isAbove (table : ClassTable) (name : ClassName) (field : String) :
    table.resolveField name field = name ∨ table.IsAbove (table.resolveField name field) := by
  rw [resolveField]
  cases found : table.findField field table.size name with
  | none => exact .inl rfl
  | some owner => exact findField_eq_some found

theorem resolveMethod_eq_or_isAbove (table : ClassTable) (name : ClassName)
    (method descriptor : String) : table.resolveMethod name method descriptor = name ∨
      table.IsAbove (table.resolveMethod name method descriptor) :=
  (table.resolveMethod_eq_or_super name method descriptor).imp_right
    fun ⟨file, listed, above⟩ => ⟨file, listed, .inl above⟩

end ClassTable

/-! ## What is written for instructions -/

/-- The class that an instruction names and whose constructor function, or that of a class above
it, is written for the instruction. -/
def Instruction.ownerOperand? : Instruction → Option ClassName
  | .new name => some name
  | .getStatic field | .putStatic field => some field.owner
  | .invokeSpecial method _ | .invokeStatic method _ => some method.owner
  | _ => none

namespace Instruction

variable {instruction : Instruction} {operand name : ClassName} {table : ClassTable}

theorem names_of_ownerOperand? (owns : instruction.ownerOperand? = some operand) :
    instruction.Names operand := by
  cases instruction with
  | new | getStatic | putStatic | invokeSpecial | invokeStatic =>
    cases owns
    constructor
  | _ => cases owns

/-- The class that is written for an operand is the operand itself or stands above a class. -/
theorem eq_or_isAbove_of_refersTo {reference : Reference}
    (owns : instruction.ownerOperand? = some operand)
    (refers : RefersTo table instruction reference) (named : reference.class? = some name) :
    name = operand ∨ table.IsAbove name := by
  cases refers with
  | new =>
    cases owns
    cases named
    exact .inl rfl
  | getStatic | putStatic =>
    cases owns
    cases named
    exact table.resolveField_eq_or_isAbove _ _
  | static | exact =>
    cases owns
    cases named
    exact table.resolveMethod_eq_or_isAbove _ _ _
  | getField | putField | length => cases named
  | array calls => cases calls <;> cases owns

/-- If a class is written for an instruction without such an operand, it is the root class in the
call of a method of an array. -/
theorem ownerOperand?_or_callsArray {reference : Reference}
    (refers : RefersTo table instruction reference) (named : reference.class? = some name) :
    (∃ operand, instruction.ownerOperand? = some operand) ∨
      ∃ method type, reference = .exact .object method.name type ∧
        instruction.CallsMethod method false ∧ method.owner.isArray = true ∧
          MethodType.parse method.descriptor = .ok type := by
  cases refers with
  | new | getStatic | putStatic | static | exact => exact .inl ⟨_, rfl⟩
  | getField | putField | length => cases named
  | array calls isArray _ parsed => exact .inr ⟨_, _, rfl, calls, isArray, parsed⟩

end Instruction

namespace Reachability

variable {lookup : Lookup} {entries provided : List ClassName} {reach : Reachability}
  {natives : NativeBodies} {file : ClassFile} {placed : Placed} {name : ClassName}

/-- A class was found, or was referred to and is provided. -/
def Knows (reach : Reachability) (name : ClassName) : Prop :=
  name ∈ reach.classes.names ∨ name ∈ reach.provided

/-- No instruction that is translated uses a static member of an array class, calls a method of one
exactly, or makes an object of one. -/
def OwnersAreClasses (reach : Reachability) (natives : NativeBodies) : Prop :=
  ∀ file placed, reach.Translates natives file placed →
    ∀ operand ∈ placed.instruction.ownerOperand?, operand.isArray = false

/-- A method of a class calls a method of an array. -/
def CallsArray (reach : Reachability) (file : ClassFile) (method : Method) (called : String)
    (type : MethodType) : Prop :=
  ∃ placed reference, MethodTranslates reach.classes file method placed ∧
    placed.instruction.CallsMethod reference false ∧ reference.owner.isArray = true ∧
      reference.name = called ∧ MethodType.parse reference.descriptor = .ok type

/-- A class that a reference names is known. -/
def KnowsClassOf (reach : Reachability) (reference : Reference) : Prop :=
  IsWritable reference ∧ ∀ name ∈ reference.class?, reach.Knows name

theorem knowsClassOf_of_class?_eq {reference : Reference} (writable : IsWritable reference)
    (named : reference.class? = some name) (known : reach.Knows name) :
    reach.KnowsClassOf reference := by
  refine ⟨writable, fun other same => ?_⟩
  cases named.symm.trans same
  exact known

theorem knowsClassOf_of_class?_eq_none {reference : Reference} (writable : IsWritable reference)
    (nameless : reference.class? = none) : reach.KnowsClassOf reference := by
  refine ⟨writable, fun other same => ?_⟩
  cases nameless.symm.trans same

/-- What the code of a method may refer to: classes that are known, and methods of the root class
where the method calls them on arrays. -/
def MayReferTo (reach : Reachability) (file : ClassFile) (method : Method) (reference : Reference) :
    Prop :=
  reach.KnowsClassOf reference ∨ ∃ called type, reference = .exact .object called type ∧
    reach.CallsArray file method called type

theorem IsClosure.knows_of_isAbove (closure : IsClosure lookup entries provided reach)
    (above : reach.classes.IsAbove name) : reach.Knows name := by
  obtain ⟨file, listed, superClass | interface⟩ := above
  · exact closure.mem_of_refersTo listed (.super superClass)
  · exact closure.mem_of_refersTo listed (.interface interface)

/-- The class that is written for an instruction that makes an object, uses a static member or calls
a method exactly is known. -/
theorem IsClosure.knows_of_isOwner (closure : IsClosure lookup entries provided reach)
    (operands : reach.OwnersAreClasses natives) (translates : reach.Translates natives file placed)
    {operand : ClassName} (owns : placed.instruction.ownerOperand? = some operand)
    {reference : Reference} (refers : RefersTo reach.classes placed.instruction reference)
    (named : reference.class? = some name) : reach.Knows name := by
  rcases eq_or_isAbove_of_refersTo owns refers named with same | above
  · have element : operand.elementClass? = some operand := by
      rw [ClassName.elementClass?, operands file placed translates operand owns]
      rfl
    have named := names_of_ownerOperand? owns
    exact same ▸ closure.mem_of_refersTo translates.listed (translates.refersTo named element)
  · exact closure.knows_of_isAbove above

end Reachability

/-! ## Programs -/

namespace Program

variable {entries : List ClassName} {loader : Loader} {settings : Settings} {program : Program}
  {reach : Reachability}

/-- The script of a program only names classes that are known. -/
structure NamesKnownClasses (program : Program) (reach : Reachability) (natives : NativeBodies) :
    Prop where
  /-- Super classes and interfaces are known, and whatever methods name, apart from the root class
  where it stands for an array class. -/
  text : ∃ texts, program.HasTexts texts ∧
    List.Forall₂ (fun file => ClassText.Consists natives (IsLineOf file reach.KnowsClassOf)
      (fun method => IsLineOf file (reach.MayReferTo file method)) file) reach.classes.files texts
  /-- The class of a new object, the owner of a static member and the owner of a method that is
  called exactly are known, the root class included. -/
  owners : ∀ file placed, reach.Translates natives file placed →
    ∀ operand ∈ placed.instruction.ownerOperand?, ∀ reference,
      RefersTo reach.classes placed.instruction reference →
        ∀ name ∈ reference.class?, reach.Knows name

/-- What the code of a method refers to is known, or belongs to the call of a method of an array. -/
theorem mayReferTo_of_refersTo {lookup : Lookup} {natives : NativeBodies}
    {provided : List ClassName} {file : ClassFile} {method : Method} {placed : Placed}
    {reference : Reference}
    (closure : reach.IsClosure lookup entries provided) (operands : reach.OwnersAreClasses natives)
    (listed : file ∈ reach.classes.files) (declared : method ∈ file.methods)
    (found : natives.find file.name method = .ok none)
    (translates : MethodTranslates reach.classes file method placed)
    (refers : RefersTo reach.classes placed.instruction reference) :
    reach.MayReferTo file method reference := by
  have inClass : reach.Translates natives file placed := by
    obtain ⟨body, prepared, coded, here, member⟩ := translates
    exact .intro listed declared found body prepared coded here member
  cases named : reference.class? with
  | none => exact .inl (Reachability.knowsClassOf_of_class?_eq_none refers.callsOnly named)
  | some name =>
    rcases ownerOperand?_or_callsArray refers named with
      ⟨operand, owns⟩ | ⟨called, type, same, array⟩
    · have known := closure.knows_of_isOwner operands inClass owns refers named
      exact .inl (Reachability.knowsClassOf_of_class?_eq refers.callsOnly named known)
    · obtain ⟨calls, isArray, parsed⟩ := array
      exact .inr ⟨_, type, same, placed, called, translates, calls, isArray, rfl, parsed⟩

/-- **A program only names classes that were found or are provided.** -/
theorem compile_namesKnownClasses (compiled : compile entries loader settings = .ok program)
    (closed : Reachability.closeOver entries loader settings.provided = .ok reach)
    (operands : reach.OwnersAreClasses settings.natives) :
    program.NamesKnownClasses reach settings.natives := by
  obtain ⟨reach', closed', compiled⟩ := bind_eq_ok.mp compiled
  cases closed.symm.trans closed'
  obtain ⟨pieces, made⟩ := exists_isMadeOf compiled
  have closure := (Reachability.closeOver_eq_ok.mp closed).isClosure
  refine ⟨made.exists_hasTexts compiled fun file listed piece _ translated => ?_,
    fun _ _ translates _ owns _ refers _ =>
      closure.knows_of_isOwner operands translates owns refers⟩
  have own : reach.Knows file.name := .inl (List.mem_map_of_mem listed)
  have head : AllowsHead reach.classes file reach.KnowsClassOf :=
    { own := Reachability.knowsClassOf_of_class?_eq trivial rfl own
      above := fun name above => by
        have known := closure.mem_of_refersTo listed (.super (superClass_of_parentOf above))
        exact Reachability.knowsClassOf_of_class?_eq (fun _ => trivial) rfl known
      interfaces := fun name interface => by
        have known := closure.mem_of_refersTo listed (.interface interface)
        exact Reachability.knowsClassOf_of_class?_eq trivial rfl known
      registers := Reachability.knowsClassOf_of_class?_eq_none trivial rfl
      fields := fun field _ =>
        Reachability.knowsClassOf_of_class?_eq_none (callsOnly_instanceProperty _ _ _) rfl }
  refine exists_consists_of_translateClass translated head (fun _ => .inl head.own)
    (fun _ _ _ => .inl (Reachability.knowsClassOf_of_class?_eq_none trivial rfl)) ?_
  exact fun method declared found placed translates reference =>
    mayReferTo_of_refersTo closure operands listed declared found translates

/-! ## Members that are inherited -/

/-- `Main` uses a static field and a static method that it inherits from `Base`, and names itself as
their owner. -/
def heirLoader : Loader :=
  let adding : Assembly.Building Nat := do
    let _ ← Assembly.PoolBuilder.fieldRef ⟨⟨"Main"⟩, "count", "I"⟩
    Assembly.PoolBuilder.methodRef ⟨⟨"Main"⟩, "next", "()I"⟩
  let base : Assembly.ClassSketch := { Assembly.ClassSketch.empty ⟨"Base"⟩ (some .object) with
    fields := [⟨0x09, "count", "I", []⟩]
    methods := [⟨0x09, "next", "()I", [.code 1 0 [0x04, 0xac] [] []]⟩] }
  let main : Assembly.ClassSketch := { Assembly.ClassSketch.empty ⟨"Main"⟩ (some ⟨"Base"⟩) with
    methods := [⟨0x09, "sum", "()I",
      [.code 2 0 [0xb2, 0, 6, 0xb8, 0, 10, 0x60, 0xac] [] []]⟩] }
  (ClassStore.ofList [(⟨"Base"⟩, base.bytes),
    (⟨"Main"⟩, (main.store.run (adding.run .empty).2).1.bytes)]).loader

/-- Whether an instruction reads a static field of one class that another one declares. -/
def readsInherited (table : ClassTable) (name owner : ClassName) : Instruction → Bool
  | .getStatic field => field.owner = name && table.resolveField field.owner field.name = owner
  | _ => false

theorem refersTo_of_readsInherited {table : ClassTable} {name owner : ClassName}
    {instruction : Instruction} (reads : readsInherited table name owner instruction = true) :
    instruction.ownerOperand? = some name ∧ RefersTo table instruction (.owner owner) := by
  cases instruction with
  | getStatic field =>
    rw [readsInherited, Bool.and_eq_true, decide_eq_true_eq, decide_eq_true_eq] at reads
    obtain ⟨rfl, rfl⟩ := reads
    exact ⟨rfl, .getStatic field⟩
  | _ => cases reads

/-- `Base` is known, and is what is written where `Main` names itself. -/
theorem compile_heir_namesKnownClasses :
    ∃ program reach, compile [⟨"Main"⟩] heirLoader .default = .ok program ∧
      Reachability.closeOver [⟨"Main"⟩] heirLoader Builtin.names = .ok reach ∧
      program.NamesKnownClasses reach .empty ∧ ∃ file placed, reach.Translates .empty file placed ∧
        placed.instruction.ownerOperand? = some ⟨"Main"⟩ ∧
        RefersTo reach.classes placed.instruction (.owner ⟨"Base"⟩) := by
  have compiles : (compile [⟨"Main"⟩] heirLoader .default).toOption.isSome = true := by
    decide +kernel
  have computed : ((Reachability.closeOver [⟨"Main"⟩] heirLoader Builtin.names).toOption.any
      fun reach => !reach.anyTranslated .empty
          (fun placed => placed.instruction.ownerOperand?.any ClassName.isArray) &&
        reach.anyTranslated .empty fun placed =>
          readsInherited reach.classes ⟨"Main"⟩ ⟨"Base"⟩ placed.instruction) = true := by
    decide +kernel
  obtain ⟨program, compiled⟩ := Option.isSome_iff_exists.mp compiles
  have compiled := ok_of_toOption compiled
  obtain ⟨reach, closed, computed⟩ := (Option.any_eq_true _ _).mp computed
  have closed := ok_of_toOption closed
  obtain ⟨noArrays, inherited⟩ := (Bool.and_eq_true _ _).mp computed
  obtain ⟨file, placed, translates, reads⟩ := Reachability.anyTranslated_eq_true.mp inherited
  have operands : reach.OwnersAreClasses .empty := by
    intro file placed translates operand owns
    refine Bool.eq_false_iff.mpr fun isArray => ?_
    have present : reach.anyTranslated .empty
        (fun placed => placed.instruction.ownerOperand?.any ClassName.isArray) = true :=
      Reachability.anyTranslated_eq_true.mpr
        ⟨file, placed, translates, (Option.any_eq_true _ _).mpr ⟨operand, owns, isArray⟩⟩
    rw [present] at noArrays
    cases noArrays
  exact ⟨program, reach, compiled, closed, compile_namesKnownClasses compiled closed operands, file,
    placed, translates, refersTo_of_readsInherited reads⟩

/-! ## A name with two lines -/

/-- The second line of the name of a class is no comment, and may make an object of a class that is
neither there nor provided. -/
theorem compile_twoLines_namesUnknown :
    ∃ program reach, compile [⟨"A\nnew B()"⟩] (namedLoader ⟨"A\nnew B()"⟩ .object) .default =
        .ok program ∧
      Reachability.closeOver [⟨"A\nnew B()"⟩] (namedLoader ⟨"A\nnew B()"⟩ .object) Builtin.names =
        .ok reach ∧
      reach.OwnersAreClasses .empty ∧
      (Expression.new ⟨"B"⟩).text ∈ textLines program.text ∧ ¬ reach.Knows ⟨"B"⟩ := by
  obtain ⟨program, compiled, lines⟩ := exists_compiled [⟨"A\nnew B()"⟩]
    (namedLoader ⟨"A\nnew B()"⟩ .object) .default "// A\nnew B()" (by decide +kernel)
  have computed : ((Reachability.closeOver [⟨"A\nnew B()"⟩]
      (namedLoader ⟨"A\nnew B()"⟩ .object) Builtin.names).toOption.any fun reach =>
        !reach.anyTranslated .empty (fun _ => true) && !reach.classes.names.contains ⟨"B"⟩ &&
          !reach.provided.contains ⟨"B"⟩) = true := by
    decide +kernel
  obtain ⟨reach, closed, computed⟩ := (Option.any_eq_true _ _).mp computed
  simp only [Bool.and_eq_true, Bool.not_eq_true', Bool.eq_false_iff, ne_eq,
    List.contains_iff_mem] at computed
  obtain ⟨⟨nothing, notFound⟩, notProvided⟩ := computed
  refine ⟨program, reach, compiled, ok_of_toOption closed, fun file placed translates => ?_,
    lines (by decide), fun known => known.elim notFound notProvided⟩
  exact absurd (Reachability.anyTranslated_eq_true.mpr ⟨file, placed, translates, rfl⟩) nothing

end Program

end Bytescript
