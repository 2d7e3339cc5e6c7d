import Bytescript.Proofs.Script.CalledFunctions
import Bytescript.Proofs.Script.Definitions
import Bytescript.Proofs.Translation.Class
import Bytescript.Proofs.Translation.MethodReferences

/-!
# What classes refer to

In the script a class goes by the name of its constructor function.  A class names itself, the super
class whose constructor function it calls, the two of them and its interfaces where it is
registered, and whatever is written for the instructions of its methods.  It calls the function that
registers it and those whose features its methods record.  Fields begin with constants.
-/

set_option autoImplicit false

namespace Bytescript

open Bytescript.Flow Script Translation

/-! ## Lines -/

/-- A line of the code of a class that only refers to what is allowed. -/
inductive Script.Line.RefersOnly (file : ClassFile) (allowed : Reference → Prop) : Line → Prop where
  | shows {line : Line} (shows : line.Shows fun part => ∀ reference ∈ part.references,
      allowed reference) : RefersOnly file allowed line
  | constructor (own : allowed (.owner file.name)) :
    RefersOnly file allowed (.opening (constructorStart file.name))
  | parentCall {parent : ClassName} (above : allowed (.parent parent)) :
    RefersOnly file allowed (.plain (classIdentifier parent ++ ".call(this);"))
  | initialValue {property : String} {value : Expression} (named : allowed (.property property))
      (referred : ∀ reference ∈ value.references, allowed reference) :
    RefersOnly file allowed (.plain ("this." ++ property ++ " = " ++ value.text ++ ";"))
  | registration (calls : allowed (.function .defineClass)) (own : allowed (.owner file.name))
      (above : ∀ name ∈ parentOf file, allowed (.parent name))
      (interfaces : ∀ name ∈ file.interfaces, allowed (.owner name)) :
    RefersOnly file allowed (registrationLine file)
  | functionHead (own : allowed (.owner file.name)) (name : String) (type : MethodType)
      (isStatic : Bool) (parameters : List Variable) :
    RefersOnly file allowed (.opening
      (Translation.functionHead file.name name type isStatic (parameters.map Variable.name)))
  | functionEnd (isStatic : Bool) :
    RefersOnly file allowed (.closing (Translation.functionEnd isStatic))
  | self : RefersOnly file allowed (.plain "var lc0 = this;")
  | declaration (declared : List Variable) : RefersOnly file allowed
    (.plain ("var " ++ String.intercalate ", " (declared.map Variable.name) ++ ";"))

namespace Translation

variable {names : List Char → Prop} {allowed : Reference → Prop} {file : ClassFile} {line : Line}
  {classes : ClassTable} {method : Method}

theorem reads_variables (sources : List Variable) :
    Reads names Place.IsOpen (String.intercalate ", " (sources.map Variable.name)) :=
  reads_listed (List.forall_mem_map.mpr fun source _ => (reads_variable source).isOpen)

theorem leads_functionHead (owner : ClassName) (name : String) (type : MethodType)
    (isStatic : Bool) (parameters : List Variable) : Leads names .between
      (functionHead owner name type isStatic (parameters.map Variable.name)) .between := by
  have list : Leads names .between
      ("(" ++ String.intercalate ", " (parameters.map Variable.name) ++ ") \x7b") .between := by
    rw [String.append_assoc]
    exact (Leads.fixed (by decide)).append ((reads_variables parameters).sign (by decide))
  have begins : ("(" ++ String.intercalate ", " (parameters.map Variable.name)
      ++ ") \x7b").toList.head? = some '(' := by simp
  rw [functionHead]
  cases isStatic with
  | true =>
    have named : Leads names .between ("function " ++ staticFunction owner name type) _ :=
      (Leads.fixed (by decide)).append (leads_word fun _ => isNameChar_staticFunction)
    exact named.append (Place.leads_ofWord _ begins list)
  | false =>
    have named : Leads names .between (classIdentifier owner ++ ".prototype."
        ++ methodProperty name type ++ " = function") (.ofWord "function".toList) := by
      obtain ⟨last, quiet, read⟩ := Expression.reads_prototype owner name type
      exact read.append (quiet.isOpen.leads (by decide) (.fixed (by decide)))
    exact named.append (Place.leads_ofWord _ begins list)

/-- The line that registers a class calls the function that does so. -/
theorem leads_registrationLine (file : ClassFile) (calls : names "defineClass".toList) :
    Leads names .between (registrationLine file).text .between := by
  have identifier (name : ClassName) : Reads names Place.IsOpen (classIdentifier name) :=
    reads_word fun _ => isNameChar_classIdentifier
  have parent : Reads names Place.IsOpen
      (((parentOf file).map classIdentifier).getD "null") := by
    cases parentOf file with
    | none => exact reads_word (by decide)
    | some name => exact identifier name
  have interfaces : Reads names Place.IsOpen
      (String.intercalate ", " (file.interfaces.map classIdentifier)) :=
    reads_listed (List.forall_mem_map.mpr fun name _ => identifier name)
  have flag : Reads names Place.IsOpen (if file.access.isInterface then "true" else "false") := by
    split <;> exact reads_word (by decide)
  have start : Leads names .between (Support.Function.defineClass.path ++ "(") .between :=
    (Expression.leads_path .defineClass).append (Expression.leads_call calls)
  have literal : Leads names .between (textLiteral file.name.text) .between :=
    leads_stringLiteral _
  have comma : Leads names .between ", " .between := .fixed (by decide)
  simp only [registrationLine, Line.text]
  exact (((((((((start.reads (identifier file.name)).sign (by decide)).append literal).append
    comma).reads parent).sign (by decide)).reads interfaces).sign (by decide)).reads flag).sign
      (by decide)

/-- A class with the name of the library makes its subclasses call a function of the library. -/
theorem leads_parentCall (parent : ClassName)
    (library : classIdentifier parent = "$vm" → names "call".toList) :
    Leads names .between (classIdentifier parent ++ ".call(this);") .between := by
  obtain ⟨last, place, read⟩ : ∃ last, _ ∧
      Leads names .between (classIdentifier parent ++ "." ++ "call") last :=
    exists_leads_member parent (by decide)
  have opens : Leads names last "(" .between := by
    rcases place with rfl | ⟨same, rfl⟩
    · exact Place.leads_ofWord _ rfl (.fixed (by decide))
    · exact Expression.leads_call (library same)
  have written : classIdentifier parent ++ ".call(this);" =
      classIdentifier parent ++ "." ++ "call" ++ "(" ++ "this);" := by
    rw [← String.toList_inj]
    simp
  rw [written]
  exact (read.append opens).append (.fixed (by decide))

/-- A line only calls what it refers to. -/
theorem reads_of_refersOnly (refers : line.RefersOnly file allowed)
    (calls : ∀ reference, allowed reference → reference.CallsOnly names) :
    Reads names Place.IsOpen line.text := by
  cases refers with
  | shows shows =>
    exact shows.reads fun part referred reference member => calls _ (referred reference member)
  | constructor own =>
    have named : Leads names .between ("function " ++ classIdentifier file.name) _ :=
      (Leads.fixed (by decide)).append (leads_word fun _ => isNameChar_classIdentifier)
    exact .between (named.append (Place.leads_ofWord _ rfl (.fixed (by decide)))) trivial
  | @parentCall parent above => exact .between (leads_parentCall parent (calls _ above)) trivial
  | initialValue named referred =>
    have start : Leads names .between "this." .between := .fixed (by decide)
    have written := start.reads (reads_word (calls _ named).1)
    have stored := written.sign (by decide : IsSeparator " = ")
    have value := Expression.reads_text _ fun reference member =>
      calls _ (referred reference member)
    exact .between ((stored.reads value).isOpen.sign (by decide)) trivial
  | registration defines => exact .between (leads_registrationLine file (calls _ defines)) trivial
  | functionHead _ name type isStatic parameters =>
    exact .between (leads_functionHead file.name name type isStatic parameters) trivial
  | functionEnd isStatic => cases isStatic <;> exact .between (.fixed (by decide)) trivial
  | self => exact .between (.fixed (by decide)) trivial
  | declaration declared =>
    have start : Leads names .between "var " .between := .fixed (by decide)
    exact .between ((start.reads (reads_variables declared)).sign (by decide)) trivial

/-! ## Fields -/

/-- What is allowed in the code of a class apart from its methods: the classes that it names, the
function that registers it, and the properties of its fields. -/
structure AllowsHead (classes : ClassTable) (file : ClassFile) (allowed : Reference → Prop) :
    Prop where
  own : allowed (.owner file.name)
  above : ∀ name ∈ parentOf file, allowed (.parent name)
  interfaces : ∀ name ∈ file.interfaces, allowed (.owner name)
  registers : allowed (.function .defineClass)
  fields : ∀ field ∈ file.fields,
    allowed (.property (classes.instanceProperty file.name field.name))

/-- The property of a field is a word that is not the name of the library. -/
theorem callsOnly_instanceProperty (classes : ClassTable) (owner : ClassName) (field : String) :
    (Reference.property (classes.instanceProperty owner field)).CallsOnly names := by
  rw [ClassTable.instanceProperty]
  refine ⟨?_, ?_⟩
  · split
    · exact isNameChar_append (isNameChar_append (Expression.isNameChar_fieldIdentifier field)
        (by decide)) isNameChar_toString
    · exact Expression.isNameChar_fieldIdentifier field
  · split <;> simp [toList_fieldIdentifier, libraryName]

theorem references_defaultValue (kind : Kind) : (defaultValue kind).references = [] := by
  cases kind <;> rfl

theorem refersOnly_instanceFieldLine {field : Field}
    (property : allowed (.property (classes.instanceProperty file.name field.name)))
    (made : instanceFieldLine classes file.name field = .ok line) :
    line.RefersOnly file allowed := by
  obtain ⟨value, begins, made⟩ := bind_eq_ok.mp made
  obtain ⟨type, _, begins⟩ := bind_eq_ok.mp begins
  cases begins
  cases made
  refine .initialValue property ?_
  rw [references_defaultValue]
  exact List.forall_mem_nil _

theorem refersOnly_staticFieldLine {field : Field} (own : allowed (.owner file.name))
    (made : staticFieldLine file.name field = .ok line) : line.RefersOnly file allowed := by
  have stored {value : Expression} (none : value.references = []) : (Line.plain
      (Statement.store (.staticField file.name field.name) value).text).RefersOnly file
        allowed := by
    refine .shows (.inr ⟨_, ?_, .statement _⟩)
    simpa [Part.references, Statement.references, Expression.references, none] using own
  rw [staticFieldLine] at made
  split at made
  · obtain ⟨value, same, made⟩ := bind_eq_ok.mp made
    cases same
    cases made
    exact stored rfl
  · obtain ⟨value, begins, made⟩ := bind_eq_ok.mp made
    obtain ⟨type, _, begins⟩ := bind_eq_ok.mp begins
    cases begins
    cases made
    exact stored (references_defaultValue type.kind)

theorem refersOnly_constructorLines {lines : List Line} (allows : AllowsHead classes file allowed)
    (made : constructorLines classes file = .ok lines) :
    ∀ line ∈ lines, line.RefersOnly file allowed := by
  obtain ⟨fields, begins, made⟩ := bind_eq_ok.mp made
  cases made
  refine List.forall_mem_append.mpr ⟨List.forall_mem_append.mpr
    ⟨List.forall_mem_cons.mpr ⟨.constructor allows.own, ?_⟩, ?_⟩, ?_⟩
  · refine List.forall_mem_map.mpr fun parent listed => ?_
    exact .parentCall (allows.above parent (Option.mem_toList.mp listed))
  · intro line member
    obtain ⟨field, listed, made⟩ := exists_of_forall₂_right (mapM_eq_ok.mp begins) member
    exact refersOnly_instanceFieldLine (allows.fields field (List.mem_filter.mp listed).1) made
  · exact List.forall_mem_singleton.mpr (.shows (.inl .closes))

/-! ## Methods -/

/-- An instruction stands in a block of a method that is translated. -/
inductive MethodTranslates (classes : ClassTable) (file : ClassFile) (method : Method)
    (placed : Placed) : Prop where
  | intro {code : Code} {flow : ControlFlow} {codes : Codes} {block : Nat} {content : Block}
    {blockCode : BlockCode} (body : method.code = some code)
    (prepared : prepare ⟨classes, file.name, method.name⟩ file.pool code = .ok (flow, codes))
    (coded : codes.getD block none = some blockCode) (here : flow.blocks[block]? = some content)
    (member : placed ∈ content.body)

/-- The lines of a method refer to its class, to what its instructions refer to, and to functions
whose features it records. -/
theorem refersOnly_methodCode {code : MethodCode} (own : allowed (.owner file.name))
    (translated : translateMethod classes file method = .ok code)
    (recorded : CallsAllowed allowed code.features)
    (members : ∀ placed, MethodTranslates classes file method placed →
      ∀ reference, RefersTo classes placed.instruction reference → allowed reference) :
    ∀ line ∈ code.lines, line.RefersOnly file allowed := by
  obtain ⟨_, flow, codes, made⟩ := exists_isMadeOf_of_translateMethod translated
  rw [made.features] at recorded
  have body := linesShow_of_bodyOf made.prepared
    (fun coded here placed member => {
      calls function needed :=
        recorded function (instructionFeatures_subset coded here member needed)
      members := members placed (.intro made.present made.prepared coded here member) })
    (fun coded handler listed function needed =>
      recorded function (handlerFeatures_subset coded listed needed)) made.body
  rw [MethodCode.lines, made.owner]
  refine List.forall_mem_append.mpr ⟨List.forall_mem_append.mpr ⟨List.forall_mem_append.mpr
    ⟨List.forall_mem_append.mpr ⟨List.forall_mem_cons.mpr ⟨?_, ?_⟩, ?_⟩, ?_⟩, ?_⟩, ?_⟩
  · have head := Line.RefersOnly.functionHead own code.name code.type code.isStatic
      ((parametersOf code.isStatic code.type).map fun parameter => .slot parameter.1)
    rwa [List.map_map] at head
  · split
    · exact List.forall_mem_nil _
    · exact List.forall_mem_singleton.mpr .self
  · refine List.forall_mem_map.mpr fun statement listed => .shows (.inr ⟨_, ?_, .statement _⟩)
    have refers := refersOnly_of_mem_coercions (fun parameter listed function needed =>
      recorded function (coercionFeatures_subset listed needed)) listed
    exact refers.referred
  · rw [declarationLines]
    split
    · exact List.forall_mem_nil _
    · exact List.forall_mem_singleton.mpr (.declaration code.declared)
  · refine fun line member => .shows ((body line member).imp_right ?_)
    rintro ⟨part, refers, shown⟩
    exact ⟨part, refers.referred, shown⟩
  · exact List.forall_mem_singleton.mpr (.functionEnd code.isStatic)

/-- A class records what the code of its methods needs. -/
theorem featuresOf_subset_of_translateClass {natives : NativeBodies} {written : Written}
    {code : Code} {flow : ControlFlow} {codes : Codes}
    (made : translateClass classes natives file = .ok written) (declared : method ∈ file.methods)
    (found : natives.find file.name method = .ok none) (body : method.code = some code)
    (prepared : prepare ⟨classes, file.name, method.name⟩ file.pool code = .ok (flow, codes)) :
    ∃ parameters, featuresOf parameters flow codes ⊆ written.features := by
  obtain ⟨_, _, methods, pieces⟩ := exists_hasPieces made
  obtain ⟨piece, listed, becomes⟩ := exists_of_forall₂_left pieces.become declared
  cases becomes with
  | given found' => cases found.symm.trans found'
  | missing _ empty => cases body.symm.trans empty
  | @translated result _ translated =>
    obtain ⟨code', flow', codes', made⟩ := exists_isMadeOf_of_translateMethod translated
    cases body.symm.trans made.present
    cases prepared.symm.trans made.prepared
    refine ⟨parametersOf result.isStatic result.type, fun feature member => ?_⟩
    rw [← made.features] at member
    rw [pieces.features]
    exact List.mem_flatMap.mpr ⟨_, listed, member⟩

/-! ## Single lines -/

/-- What instructions refer to is written without calls, and without signs that would end a line. -/
theorem RefersTo.callsOnly {instruction : Instruction} {reference : Reference}
    (refers : RefersTo classes instruction reference) : reference.CallsOnly names := by
  cases refers with
  | getField | putField => exact callsOnly_instanceProperty _ _ _
  | length => exact ⟨by decide, by decide⟩
  | _ => trivial

end Translation

end Bytescript
