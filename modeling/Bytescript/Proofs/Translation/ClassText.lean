import Bytescript.Proofs.Script.Indentation
import Bytescript.Proofs.Translation.ClassReferences

/-!
# The text of a class, line by line

The code of a class begins with a comment that holds the name of the class as it is.  If the name
has several lines, only the first of them is in the comment, and the others stand in the script like
code.  All other lines are single lines of the text, whatever names and constants they hold, apart
from those of bodies that are given.
-/

set_option autoImplicit false

namespace Bytescript.Translation

open Script

variable {classes : ClassTable} {natives : NativeBodies} {file : ClassFile} {method : Method}
  {allowed : Reference → Prop} {line : String} {written : Written}

/-! ## Lines that are written for a class -/

/-- A line of the text is a line of class code that only refers to what is allowed. -/
def IsLineOf (file : ClassFile) (allowed : Reference → Prop) (text : String) : Prop :=
  ∃ depth, ∃ line : Line, text = Line.indent depth line.text ∧ line.RefersOnly file allowed

theorem isLineOf_of_mem_indentAll {code : List Line} {depth : Nat}
    (refers : ∀ line ∈ code, line.RefersOnly file allowed)
    (listed : line ∈ Line.indentAll depth code) : IsLineOf file allowed line := by
  induction code generalizing depth with
  | nil => cases listed
  | cons first rest ih =>
    obtain ⟨here, later⟩ := List.forall_mem_cons.mp refers
    rcases List.mem_cons.mp listed with rfl | member
    · exact ⟨_, first, rfl, here⟩
    · exact ih later member

theorem IsLineOf.reads {names : List Char → Prop} (written : IsLineOf file allowed line)
    (calls : ∀ reference, allowed reference → reference.CallsOnly names) :
    Reads names Place.IsOpen line := by
  obtain ⟨depth, code, rfl, refers⟩ := written
  exact (reads_of_refersOnly refers calls).indent depth

/-- Everything may be called, but properties have names that are words. -/
def IsWritable : Reference → Prop := Reference.CallsOnly fun _ => True

theorem IsLineOf.oneLine (written : IsLineOf file IsWritable line) : OneLine line :=
  (written.reads fun _ => id).oneLine

theorem allowsHead_isWritable (classes : ClassTable) (file : ClassFile) :
    AllowsHead classes file IsWritable where
  own := trivial
  above _ _ _ := trivial
  interfaces _ _ := trivial
  registers := trivial
  fields field _ := callsOnly_instanceProperty classes file.name field.name

/-! ## Methods -/

theorem oneLine_of_mem_methodCode {code : MethodCode}
    (translated : translateMethod classes file method = .ok code) (listed : line ∈ code.text) :
    OneLine line := by
  have refers : ∀ line ∈ code.lines, line.RefersOnly file IsWritable :=
    refersOnly_methodCode trivial translated (fun _ _ => trivial) fun _ _ _ => RefersTo.callsOnly
  exact (isLineOf_of_mem_indentAll refers listed).oneLine

/-- The lines of the text of a method, if it has any, have a property.  A body that is given is left
out of this. -/
inductive MethodLines (natives : NativeBodies) (holds : String → Prop) (owner : ClassName)
    (method : Method) : List String → Prop where
  | given {body : NativeBody} {type : MethodType}
      (found : natives.find owner method = .ok (some body))
      (parsed : MethodType.parse method.descriptor = .ok type) :
    MethodLines natives holds owner method (allTextLines (givenLines owner method body type))
  | missing (found : natives.find owner method = .ok none) (empty : method.code = none) :
    MethodLines natives holds owner method []
  | translated (found : natives.find owner method = .ok none) {lines : List String}
      (each : ∀ line ∈ lines, holds line) : MethodLines natives holds owner method lines

/-! ## Classes -/

/-- The lines of the text of a class, in the parts that they come in. -/
structure ClassText where
  /-- The comment that holds the name of the class. -/
  comment : String
  /-- The further lines of the name, which are no comment. -/
  brought : List String
  /-- The constructor function, the registration and the static fields. -/
  head : List String
  functions : List (List String)

/-- All lines of the text of a class. -/
def ClassText.lines (text : ClassText) : List String :=
  text.comment :: text.brought ++ text.head ++ text.functions.flatten

/-- A name that is a single line brings no others. -/
theorem brought_eq_nil_iff {name : ClassName} {comment : String} {brought : List String}
    (lines : textLines ("// " ++ name.text) = comment :: brought) :
    brought = [] ↔ OneLine name.text := by
  have behind : OneLine ("// " ++ name.text) ↔ OneLine name.text :=
    oneLine_append.trans (and_iff_right (by decide))
  rw [← behind]
  constructor
  · rintro rfl
    exact oneLine_of_textLines_eq lines
  · intro single
    have same := (textLines_of_oneLine single).symm.trans lines
    exact (List.cons.inj same).2.symm

/-- A text begins with the name of a class, behind two slashes. -/
structure ClassText.IsNamed (text : ClassText) (name : ClassName) : Prop where
  lines : textLines ("// " ++ name.text) = text.comment :: text.brought
  /-- Only a name with several lines brings any. -/
  single : text.brought = [] ↔ OneLine name.text

/-- The text of a class in its parts, if all lines of the head are single. -/
theorem exists_classText (name : ClassName) {head : List String} (functions : List (List String))
    (single : ∀ line ∈ head, OneLine line) : ∃ text : ClassText, text.IsNamed name ∧
      text.head = head ∧ text.functions = functions.map allTextLines ∧
        text.lines = allTextLines (("// " ++ name.text) :: head ++ functions.flatten) := by
  obtain ⟨comment, brought, lines⟩ := exists_textLines_eq_cons ("// " ++ name.text)
  refine ⟨⟨comment, brought, head, functions.map allTextLines⟩,
    ⟨lines, brought_eq_nil_iff lines⟩, rfl, rfl, ?_⟩
  have inside : allTextLines functions.flatten = (functions.map allTextLines).flatten := by
    induction functions with
    | nil => rfl
    | cons first rest ih =>
      rw [List.flatten_cons, allTextLines, List.flatMap_append, ← allTextLines, ← allTextLines, ih,
        List.map_cons, List.flatten_cons]
  rw [ClassText.lines, allTextLines, List.flatMap_append, List.flatMap_cons, lines,
    ← allTextLines, ← allTextLines, allTextLines_of_oneLine single, inside]

/-- The lines of a class before its methods have a property, and those of each method one that
depends on the method.  What the name brings and bodies that are given are left out of this. -/
structure ClassText.Consists (natives : NativeBodies) (holds : String → Prop)
    (inside : Method → String → Prop) (file : ClassFile) (text : ClassText) : Prop where
  named : text.IsNamed file.name
  head : ∀ line ∈ text.head, holds line
  functions : List.Forall₂ (fun method => MethodLines natives (inside method) file.name method)
    file.methods text.functions

theorem MethodLines.imp {holds holds' : String → Prop} {owner : ClassName} {lines : List String}
    (weaker : ∀ line, holds line → holds' line)
    (written : MethodLines natives holds owner method lines) :
    MethodLines natives holds' owner method lines := by
  cases written with
  | given found parsed => exact .given found parsed
  | missing found empty => exact .missing found empty
  | translated found each =>
    exact .translated found fun line listed => weaker line (each line listed)

theorem ClassText.Consists.imp {holds holds' : String → Prop}
    {inside inside' : Method → String → Prop} {text : ClassText}
    (weaker : ∀ line, holds line → holds' line)
    (weakerInside : ∀ method line, inside method line → inside' method line)
    (consists : text.Consists natives holds inside file) :
    text.Consists natives holds' inside' file where
  named := consists.named
  head line listed := weaker line (consists.head line listed)
  functions := consists.functions.imp fun method _ => .imp (weakerInside method)

theorem Becomes.methodLines {inside : Reference → Prop}
    (becomes : Becomes classes natives file method written)
    (own : inside (.owner file.name)) (recorded : CallsAllowed inside written.features)
    (members : natives.find file.name method = .ok none →
      ∀ placed, MethodTranslates classes file method placed →
        ∀ reference, RefersTo classes placed.instruction reference → inside reference) :
    MethodLines natives (IsLineOf file inside) file.name method (allTextLines written.lines) := by
  cases becomes with
  | given found parsed => exact .given found parsed
  | missing found empty => exact .missing found empty
  | @translated code found translated =>
    have refers := refersOnly_methodCode own translated recorded (members found)
    refine .translated found fun line listed => ?_
    rw [allTextLines_of_oneLine fun _ => oneLine_of_mem_methodCode translated] at listed
    exact isLineOf_of_mem_indentAll refers listed

section Head

variable {constructor statics : List Line} {methods : List Written}

/-- The constructor function, the registration and the static fields refer to what is allowed. -/
theorem HasPieces.refersOnly_of_mem_head
    (pieces : HasPieces classes natives file written constructor statics methods)
    (allows : AllowsHead classes file allowed) :
    ∀ line ∈ constructor ++ registrationLine file :: statics, line.RefersOnly file allowed := by
  refine List.forall_mem_append.mpr ⟨refersOnly_constructorLines allows pieces.constructed,
    List.forall_mem_cons.mpr ⟨?_, fun line member => ?_⟩⟩
  · exact .registration allows.registers allows.own allows.above allows.interfaces
  · obtain ⟨field, _, made⟩ := exists_of_forall₂_right pieces.stored member
    exact refersOnly_staticFieldLine allows.own made

theorem HasPieces.oneLine_of_mem_head
    (pieces : HasPieces classes natives file written constructor statics methods)
    (listed : line ∈ Line.indentAll 0 (constructor ++ registrationLine file :: statics)) :
    OneLine line :=
  (isLineOf_of_mem_indentAll
    (pieces.refersOnly_of_mem_head (allowsHead_isWritable classes file)) listed).oneLine

end Head

/-- The text of a class refers to the class itself, its super class and its interfaces, to what its
instructions refer to, and to the functions whose features it records. -/
theorem exists_consists_of_translateClass {inside : Method → Reference → Prop}
    (made : translateClass classes natives file = .ok written)
    (head : AllowsHead classes file allowed) (own : ∀ method, inside method (.owner file.name))
    (recorded : ∀ method, CallsAllowed (inside method) written.features)
    (members : ∀ method ∈ file.methods, natives.find file.name method = .ok none →
      ∀ placed, MethodTranslates classes file method placed →
        ∀ reference, RefersTo classes placed.instruction reference → inside method reference) :
    ∃ text : ClassText, text.lines = allTextLines written.lines ∧
      text.Consists natives (IsLineOf file allowed) (fun method => IsLineOf file (inside method))
        file := by
  obtain ⟨constructor, statics, methods, pieces⟩ := exists_hasPieces made
  obtain ⟨text, named, atHead, functions, lines⟩ :=
    exists_classText file.name (methods.map Written.lines) fun _ => pieces.oneLine_of_mem_head
  refine ⟨text, ?_, named, ?_, ?_⟩
  · rw [lines, pieces.lines]
    exact congrArg (fun head => allTextLines (head ++ (methods.map Written.lines).flatten))
      (Line.indentAll_plain_cons _ _).symm
  · rw [atHead]
    exact fun line => isLineOf_of_mem_indentAll (pieces.refersOnly_of_mem_head head)
  · rw [functions, List.map_map, List.forall₂_map_right_iff]
    have each : ∀ piece ∈ methods, ∀ method, CallsAllowed (inside method) piece.features :=
      fun piece listed method function needed =>
        recorded method function (pieces.features ▸ List.mem_flatMap.mpr ⟨piece, listed, needed⟩)
    have become := (List.forall₂_and_left _ _).mpr ⟨each, pieces.become.flip⟩
    refine ((List.forall₂_and_left _ _).mpr ⟨members, become.flip⟩).imp ?_
    rintro method piece ⟨members, recorded, becomes⟩
    exact becomes.methodLines (own method) (recorded method) members

end Bytescript.Translation
