import Bytescript.Proofs.Translation.ClassText

/-!
# The outline of a class

Every function that a class is translated to begins with a line of its own and ends with one, and
all lines between them begin with a tab.  So the lines of a class that are not inside of a function
are few: the constructor function and the registration of the class, its static fields, and for
each method that has a body the first line and the last one.  Only a body that is given may have
any lines.
-/

set_option autoImplicit false

namespace Bytescript.Translation

open Script

variable {classes : ClassTable} {natives : NativeBodies} {file : ClassFile} {method : Method}
  {written : Written}

/-! ## Methods -/

/-- The lines of a method: a function with a body that is given, one whose other lines are inside
of it, or none. -/
inductive HasFunction (natives : NativeBodies) (owner : ClassName) (method : Method) :
    List String → Prop where
  | given {body : NativeBody} {type : MethodType}
      (found : natives.find owner method = .ok (some body))
      (parsed : MethodType.parse method.descriptor = .ok type) :
    HasFunction natives owner method (givenLines owner method body type)
  | missing (found : natives.find owner method = .ok none) (empty : method.code = none) :
    HasFunction natives owner method []
  | translated {type : MethodType} {parameters inside : List String}
      (found : natives.find owner method = .ok none) (present : method.code.isSome = true)
      (parsed : MethodType.parse method.descriptor = .ok type)
      (indented : ∀ line ∈ inside, IsIndented line)
      (single : ∀ line ∈ functionHead owner method.name type method.access.isStatic parameters
        :: inside ++ [functionEnd method.access.isStatic], OneLine line) :
    HasFunction natives owner method
      (functionHead owner method.name type method.access.isStatic parameters :: inside
        ++ [functionEnd method.access.isStatic])

theorem closed_declarationLines (declared : List Variable) :
    Closed (declarationLines declared) := by
  rw [declarationLines]
  split
  · exact .nil
  · exact .plain _ .nil

/-- The lines of a function are its first one, its last one, and indented ones between them. -/
theorem MethodCode.exists_text_eq (code : MethodCode) : ∃ parameters inside,
    code.text = functionHead code.owner code.name code.type code.isStatic parameters :: inside
        ++ [functionEnd code.isStatic] ∧
      ∀ line ∈ inside, IsIndented line := by
  have self : Closed (if code.isStatic then [] else [.plain "var lc0 = this;"]) := by
    split
    · exact .nil
    · exact .plain _ .nil
  have start := self.append (.statements (coercions (parametersOf code.isStatic code.type)))
  have inside := (start.append (closed_declarationLines code.declared)).append (.body code.body)
  obtain ⟨written, indented⟩ := inside.indentAll_part
    (functionHead code.owner code.name code.type code.isStatic
      ((parametersOf code.isStatic code.type).map fun parameter =>
        (Variable.slot parameter.1).name))
    (functionEnd code.isStatic)
  exact ⟨_, _, written, indented⟩

theorem Becomes.hasFunction (becomes : Becomes classes natives file method written) :
    HasFunction natives file.name method written.lines := by
  cases becomes with
  | given found parsed => exact .given found parsed
  | missing found empty => exact .missing found empty
  | @translated result found translated =>
    obtain ⟨code, _, _, made⟩ := exists_isMadeOf_of_translateMethod translated
    obtain ⟨parameters, inside, text, indented⟩ := result.exists_text_eq
    rw [made.owner, made.name, made.isStatic] at text
    have single : ∀ line ∈ result.text, OneLine line :=
      fun _ => oneLine_of_mem_methodCode translated
    rw [text] at single ⊢
    exact .translated found (Option.isSome_of_eq_some made.present) made.typed indented single

/-! ## Classes -/

/-- The lines of a class between its comment and its methods: the constructor function, the
registration, and the static fields. -/
def headLines (file : ClassFile) (fields statics : List String) : List String :=
  constructorStart file.name :: fields ++ "\x7d" :: (registrationLine file).text :: statics

/-- The lines of a class: a comment, those before its methods, and the functions of the methods. -/
structure HasOutline (natives : NativeBodies) (file : ClassFile)
    (lines fields statics : List String) (functions : List (List String)) : Prop where
  lines : lines = ("// " ++ file.name.text) :: headLines file fields statics ++ functions.flatten
  single : ∀ line ∈ headLines file fields statics, OneLine line
  fields : ∀ line ∈ fields, IsIndented line
  statics : ∀ line ∈ statics, ∃ (field : Field) (value : Expression),
    line = (Statement.store (.staticField file.name field.name) value).text
  functions : List.Forall₂ (HasFunction natives file.name) file.methods functions

/-- The line of a static field stores its first value. -/
theorem exists_store_of_staticFieldLine {owner : ClassName} {field : Field} {line : Line}
    (made : staticFieldLine owner field = .ok line) :
    ∃ value, line = .plain (Statement.store (.staticField owner field.name) value).text := by
  rw [staticFieldLine] at made
  split at made <;>
  · obtain ⟨value, _, made⟩ := bind_eq_ok.mp made
    cases made
    exact ⟨value, rfl⟩

/-- The constructor function calls another one and gives fields their first values. -/
theorem exists_of_constructorLines {constructor : List Line}
    (made : constructorLines classes file = .ok constructor) :
    ∃ inside, Closed inside ∧ constructor =
      .opening (constructorStart file.name) :: inside
        ++ [.closing "\x7d"] := by
  obtain ⟨body, begins, made⟩ := bind_eq_ok.mp made
  cases made
  have each : ∀ line ∈ body, ∃ text, line = .plain text ∧ True := by
    intro line member
    obtain ⟨field, _, made⟩ := exists_of_forall₂_right (mapM_eq_ok.mp begins) member
    obtain ⟨value, _, made⟩ := bind_eq_ok.mp made
    cases made
    exact ⟨_, rfl, trivial⟩
  obtain ⟨texts, rfl, _⟩ := exists_plains each
  refine ⟨_, .append ?_ (.plains texts), rfl⟩
  cases parentOf file with
  | none => exact .nil
  | some parent => exact .plain _ .nil

theorem exists_hasOutline (made : translateClass classes natives file = .ok written) :
    ∃ fields statics functions, HasOutline natives file written.lines fields statics functions := by
  obtain ⟨constructor, statics, methods, pieces⟩ := exists_hasPieces made
  obtain ⟨inside, closed, rfl⟩ := exists_of_constructorLines pieces.constructed
  have stores : ∀ line ∈ statics, ∃ text, line = .plain text ∧
      ∃ (field : Field) (value : Expression),
        text = (Statement.store (.staticField file.name field.name) value).text := by
    intro line member
    obtain ⟨field, _, made⟩ := exists_of_forall₂_right pieces.stored member
    obtain ⟨value, rfl⟩ := exists_store_of_staticFieldLine made
    exact ⟨_, rfl, field, value, rfl⟩
  obtain ⟨texts, rfl, stored⟩ := exists_plains stores
  obtain ⟨constructed, indented⟩ := closed.indentAll_part (constructorStart file.name) "\x7d"
  have head : Line.indentAll 0 (.opening (constructorStart file.name) :: inside
      ++ [.closing "\x7d"] ++ registrationLine file :: texts.map .plain) =
        headLines file (Line.indentAll 1 inside) texts := by
    have after : Line.indentAll 0 (registrationLine file :: texts.map .plain) =
        (registrationLine file).text :: texts :=
      Line.indentAll_plain ((registrationLine file).text :: texts)
    have back := (closed.part (constructorStart file.name) "\x7d" 0).depthAfter
    rw [Line.indentAll_append, constructed, back, after]
    simp [headLines]
  refine ⟨_, texts, methods.map Written.lines, ?_, ?_, indented, stored, ?_⟩
  · rw [pieces.lines, ← head]
    exact congrArg (· ++ _) (Line.indentAll_plain_cons _ _)
  · exact fun line listed => pieces.oneLine_of_mem_head (head ▸ listed)
  · rw [List.forall₂_map_right_iff]
    exact pieces.become.imp fun _ _ becomes => becomes.hasFunction

/-! ## Definitions in the outline -/

section Definitions

variable {lines fields statics : List String} {functions : List (List String)} {line : String}

theorem registers_registrationLine (file : ClassFile) :
    Registers file.name (registrationLine file).text := by
  have path : Support.Function.defineClass.path ++ "(" = "$vm.defineClass(" := by decide
  refine ⟨((parentOf file).map classIdentifier).getD "null" ++ (", ["
    ++ (String.intercalate ", " (file.interfaces.map classIdentifier) ++ ("], "
      ++ ((if file.access.isInterface then "true" else "false") ++ ");")))), ?_⟩
  simp only [registrationLine, Line.text, path, String.append_assoc]

/-- A line of a static field begins with the name of the class. -/
theorem toList_text_store (owner : ClassName) (field : Field) (value : Expression) :
    ∃ rest, (Statement.store (.staticField owner field.name) value).text.toList =
      (classIdentifier owner).toList ++ '.' :: 'f' :: rest := by
  refine ⟨"ld_".toList ++ escapeName field.name.toList ++ " = ".toList ++ value.text.toList
    ++ [';'], ?_⟩
  simp [Statement.text, Expression.text, toList_fieldIdentifier]

/-- Whatever does not hold of the other lines before the methods only shows whether it holds of the
constructor function and of the registration. -/
theorem HasOutline.filter_headLines {holds : String → Bool}
    (outline : HasOutline natives file lines fields statics functions)
    (indented : ∀ line, IsIndented line → holds line = false) (closing : holds "\x7d" = false)
    (stores : ∀ (field : Field) (value : Expression),
      holds (Statement.store (.staticField file.name field.name) value).text = false) :
    (headLines file fields statics).filter holds =
      [constructorStart file.name, (registrationLine file).text].filter holds := by
  have inside : fields.filter holds = [] := by
    refine List.filter_eq_nil_iff.mpr fun line listed => ?_
    rw [indented line (outline.fields line listed)]
    decide
  have others : statics.filter holds = [] := by
    refine List.filter_eq_nil_iff.mpr fun line listed => ?_
    obtain ⟨field, value, rfl⟩ := outline.statics line listed
    rw [stores field value]
    decide
  simp [headLines, List.filter_cons, inside, closing, others]

/-- Only the constructor function begins before the methods of a class. -/
theorem HasOutline.filter_startsFunction
    (outline : HasOutline natives file lines fields statics functions) :
    (headLines file fields statics).filter startsFunction = [constructorStart file.name] := by
  rw [outline.filter_headLines (fun _ tab => startsFunction_of_head? '\t' tab (by decide))
    (startsFunction_of_head? '}' rfl (by decide))]
  · simp [startsFunction_constructorStart, (registers_registrationLine file).startsFunction]
  · intro field value
    obtain ⟨rest, begins⟩ := toList_text_store file.name field value
    exact startsFunction_of_member begins

/-- The class is registered once before its methods. -/
theorem HasOutline.filter_isRegistration
    (outline : HasOutline natives file lines fields statics functions) :
    (headLines file fields statics).filter isRegistration = [(registrationLine file).text] := by
  rw [outline.filter_headLines (fun _ tab => isRegistration_of_head? '\t' tab (by decide))
    (isRegistration_of_head? '}' rfl (by decide))]
  · simp [isRegistration_constructorStart, (registers_registrationLine file).isRegistration]
  · intro field value
    obtain ⟨rest, begins⟩ := toList_text_store file.name field value
    exact isRegistration_of_member begins (by decide)

/-- How a function begins, up to the parenthesis in front of its parameters. -/
def functionOpening (owner : ClassName) (name : String) (type : MethodType) (isStatic : Bool) :
    String :=
  if isStatic then "function " ++ staticFunction owner name type ++ "("
  else classIdentifier owner ++ ".prototype." ++ methodProperty name type ++ " = function("

theorem functionHead_eq (owner : ClassName) (name : String) (type : MethodType) (isStatic : Bool)
    (parameters : List String) : functionHead owner name type isStatic parameters =
      functionOpening owner name type isStatic
        ++ (String.intercalate ", " parameters ++ ") \x7b") := by
  rw [← String.toList_inj]
  cases isStatic <;> simp [functionHead, functionOpening]

/-- A method that is not static is a member of the prototype of its class. -/
theorem exists_functionOpening_toList (owner : ClassName) (name : String) (type : MethodType)
    (more : String) : ∃ rest, (functionOpening owner name type false ++ more).toList =
      (classIdentifier owner).toList ++ '.' :: 'p' :: rest := by
  refine ⟨"rototype.".toList ++ methodChars name type ++ " = function(".toList ++ more.toList, ?_⟩
  simp [functionOpening, methodProperty]

theorem isRegistration_functionOpening {owner : ClassName} {name : String} {type : MethodType}
    {isStatic : Bool} {more : String} :
    isRegistration (functionOpening owner name type isStatic ++ more) = false := by
  cases isStatic with
  | true => exact isRegistration_of_head? 'f' (by simp [functionOpening]) (by decide)
  | false =>
    obtain ⟨rest, member⟩ := exists_functionOpening_toList owner name type more
    exact isRegistration_of_member member (by decide)

theorem isRegistration_functionEnd (isStatic : Bool) :
    isRegistration (functionEnd isStatic) = false :=
  isRegistration_of_head? '}' (by cases isStatic <;> rfl) (by decide)

theorem oneLine_functionOpening (owner : ClassName) (name : String) (type : MethodType)
    (isStatic : Bool) : OneLine (functionOpening owner name type isStatic) := by
  have static : OneLine (staticFunction owner name type) :=
    oneLine_of_isNameChar fun _ => isNameChar_staticFunction
  have property : OneLine (methodProperty name type) :=
    oneLine_of_isNameChar (Expression.isNameChar_methodProperty name type)
  rw [functionOpening]
  split <;> simp only [oneLine_append]
  · exact ⟨⟨by decide, static⟩, by decide⟩
  · exact ⟨⟨⟨oneLine_classIdentifier owner, by decide⟩, property⟩, by decide⟩

/-- The lines that a given body brings: those of its text, and those of its parameters behind the
first one. -/
def broughtLines (body : NativeBody) : List String :=
  (textLines (String.intercalate ", " body.parameters ++ ") \x7b")).tail
    ++ textLines (withoutLineBreak body.text)

/-- A line of the text of a method is brought by a body that is given, begins a function, is inside
of one, or ends one. -/
theorem HasFunction.mem_cases {owner : ClassName} (written : HasFunction natives owner method lines)
    (listed : line ∈ allTextLines lines) :
    (∃ body, natives.find owner method = .ok (some body) ∧ line ∈ broughtLines body) ∨
      (∃ type isStatic more, line = functionOpening owner method.name type isStatic ++ more) ∨
      IsIndented line ∨ ∃ isStatic, line = functionEnd isStatic := by
  cases written with
  | @given body type found parsed =>
    have ending : OneLine (functionEnd method.access.isStatic) := by
      cases method.access.isStatic <;> decide
    obtain ⟨first, rest, parameters⟩ :=
      exists_textLines_eq_cons (String.intercalate ", " body.parameters ++ ") \x7b")
    rw [givenLines, allTextLines, List.flatMap_cons, List.flatMap_cons, List.flatMap_singleton,
      functionHead_eq, textLines_append (oneLine_functionOpening _ _ _ _), parameters,
      textLines_of_oneLine ending] at listed
    simp only [List.modifyHead_cons, List.cons_append, List.mem_cons, List.mem_append,
      List.not_mem_nil, or_false] at listed
    have brought : broughtLines body = rest ++ textLines (withoutLineBreak body.text) := by
      rw [broughtLines, parameters]
      rfl
    rcases listed with rfl | inParameters | inText | rfl
    · exact .inr (.inl ⟨_, _, _, rfl⟩)
    · exact .inl ⟨body, found, brought ▸ List.mem_append_left _ inParameters⟩
    · exact .inl ⟨body, found, brought ▸ List.mem_append_right _ inText⟩
    · exact .inr (.inr (.inr ⟨_, rfl⟩))
  | missing => cases listed
  | translated _ _ _ indented single =>
    rw [allTextLines_of_oneLine single, List.cons_append, List.mem_cons, List.mem_append,
      List.mem_singleton] at listed
    rcases listed with rfl | inside | rfl
    · exact .inr (.inl ⟨_, _, _, functionHead_eq _ _ _ _ _⟩)
    · exact .inr (.inr (.inl (indented line inside)))
    · exact .inr (.inr (.inr ⟨_, rfl⟩))

/-- Apart from what given bodies bring, the lines of a method register nothing. -/
theorem HasFunction.brought_of_isRegistration {owner : ClassName}
    (written : HasFunction natives owner method lines) (listed : line ∈ allTextLines lines)
    (registers : isRegistration line = true) :
    ∃ body, natives.find owner method = .ok (some body) ∧ line ∈ broughtLines body := by
  rcases written.mem_cases listed with brought | ⟨_, _, _, rfl⟩ | indented | ⟨isStatic, rfl⟩
  · exact brought
  · cases isRegistration_functionOpening.symm.trans registers
  · cases (isRegistration_of_head? '\t' indented (by decide)).symm.trans registers
  · cases (isRegistration_functionEnd isStatic).symm.trans registers

/-- A constructor function whose name ends in a small letter is not a method that is written. -/
theorem functionOpening_ne_constructorStart {owner name : ClassName} {called : String}
    {type : MethodType} {isStatic : Bool} {more : String}
    (ends : EndsSmall (classIdentifier name).toList) :
    functionOpening owner called type isStatic ++ more ≠ constructorStart name := by
  intro same
  cases isStatic with
  | true =>
    have begins : (staticFunction owner called type).toList ++ '(' :: more.toList <+:
        (classIdentifier name).toList ++ '(' :: ") \x7b".toList := by
      have characters := congrArg String.toList same
      simp only [functionOpening, constructorStart, if_true, String.toList_append,
        List.append_assoc, List.append_cancel_left_eq] at characters
      exact ⟨[], by simpa using characters⟩
    have names := (eq_of_prefix_append_cons (fun _ => isNameChar_staticFunction)
      (fun _ => isNameChar_classIdentifier) (by decide) (by decide) begins).1
    exact staticFunction_ne_of_endsSmall ends (String.toList_injective names)
  | false =>
    obtain ⟨rest, member⟩ := exists_functionOpening_toList owner called type more
    cases (startsFunction_of_member member).symm.trans (same ▸ startsFunction_constructorStart)

theorem HasFunction.brought_of_constructorStart {owner name : ClassName}
    (written : HasFunction natives owner method lines)
    (ends : EndsSmall (classIdentifier name).toList)
    (listed : constructorStart name ∈ allTextLines lines) :
    ∃ body, natives.find owner method = .ok (some body) ∧
      constructorStart name ∈ broughtLines body := by
  have starts : startsFunction (constructorStart name) = true := startsFunction_constructorStart
  rcases written.mem_cases listed with brought | ⟨_, _, _, same⟩ | indented | ⟨isStatic, same⟩
  · exact brought
  · exact absurd same.symm (functionOpening_ne_constructorStart ends)
  · cases (startsFunction_of_head? '\t' indented (by decide)).symm.trans starts
  · have closing : startsFunction (functionEnd isStatic) = false :=
      startsFunction_of_head? '}' (by cases isStatic <;> rfl) (by decide)
    cases closing.symm.trans (same ▸ starts)

end Definitions

end Bytescript.Translation
