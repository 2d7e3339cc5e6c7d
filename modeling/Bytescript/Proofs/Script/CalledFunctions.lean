import Bytescript.Proofs.Script.Parts
import Bytescript.Proofs.Script.References
import Bytescript.Proofs.Script.Scanning

/-!
# The functions that an expression calls

What is written for an expression calls the functions of the support library that the expression
refers to and no others, whatever classes, members and constants it names, and it is a single line.
The scanner only has to be followed from one part of a text to the next: where it comes to the end
of an operand it may be in a word, and what stands behind an operand ends the word.
-/

set_option autoImplicit false

namespace Bytescript.Script

open Support.Mention (isNameChar)

variable {allowed : List Char → Prop} {ends : Place → Prop} {first last : Place}
  {text more : String} {pieces : List String}

/-! ## Texts behind each other -/

/-- A text that begins outside of words calls only functions that are allowed, and leaves the
scanner in a place with a property. -/
def Reads (allowed : List Char → Prop) (ends : Place → Prop) (text : String) : Prop :=
  ∃ last, ends last ∧ Leads allowed .between text last

theorem Reads.isOpen (reads : Reads allowed Place.IsQuiet text) :
    Reads allowed Place.IsOpen text :=
  reads.imp fun _ => .imp_left Place.IsQuiet.isOpen

theorem Reads.calls (reads : Reads allowed ends text) : ∀ name ∈ calledIn text, allowed name := by
  obtain ⟨_, _, leads⟩ := reads
  exact leads.calls

theorem Reads.oneLine (reads : Reads allowed ends text) : OneLine text := by
  obtain ⟨_, _, leads⟩ := reads
  exact leads.oneLine

theorem Reads.between (reads : Leads allowed .between text .between)
    (property : ends .between) : Reads allowed ends text :=
  ⟨_, property, reads⟩

/-- A text that ends any word before it, and calls nothing. -/
def IsSeparator (text : String) : Prop :=
  text.toList.head?.any Place.isSign = true ∧
    (calledFrom .between text.toList = [] ∧ text.toList.foldl Place.next .between = .between) ∧
      OneLine text

instance (text : String) : Decidable (IsSeparator text) :=
  inferInstanceAs (Decidable (_ ∧ _))

/-- A separator is read after any text as it would be read alone. -/
theorem Reads.sign (reads : Reads allowed Place.IsOpen text) (separator : IsSeparator more) :
    Leads allowed .between (text ++ more) .between := by
  obtain ⟨last, isOpen, leads⟩ := reads
  exact leads.append (isOpen.leads separator.1 (.fixed separator.2))

theorem Leads.reads (leads : Leads allowed .between text .between)
    (reads : Reads allowed ends more) : Reads allowed ends (text ++ more) := by
  obtain ⟨last, property, after⟩ := reads
  exact ⟨last, property, leads.append after⟩

/-- A bare text calls nothing. -/
theorem reads_of_isBare (bare : IsBare text) : Reads allowed Place.IsQuiet text := by
  have outside : Place.between.IsPlain := trivial
  obtain ⟨last, plain, leads⟩ := exists_leads_of_isBare bare outside
  exact ⟨last, plain.isQuiet, leads⟩

theorem reads_word (name : ∀ char ∈ text.toList, isNameChar char = true) :
    Reads allowed Place.IsOpen text :=
  ⟨_, Place.isOpen_ofWord _, leads_word name⟩

theorem reads_word_of_ne (name : ∀ char ∈ text.toList, isNameChar char = true)
    (other : text.toList ≠ libraryName) : Reads allowed Place.IsQuiet text :=
  ⟨_, Place.isQuiet_ofWord other, leads_word name⟩

/-- Texts with the same separator between any two of them. -/
theorem reads_intercalate {separator : String} (start : ends .between)
    (isOpen : ∀ place, ends place → place.IsOpen)
    (separates : IsSeparator separator)
    (each : ∀ piece ∈ pieces, Reads allowed ends piece) :
    Reads allowed ends (String.intercalate separator pieces) := by
  induction pieces with
  | nil => exact .between (.fixed ⟨⟨rfl, rfl⟩, (by decide : OneLine "")⟩) start
  | cons piece rest ih =>
    obtain ⟨here, later⟩ := List.forall_mem_cons.mp each
    cases rest with
    | nil => rwa [String.intercalate_singleton]
    | cons next others =>
      rw [String.intercalate_cons_cons]
      have reads : Reads allowed Place.IsOpen piece :=
        here.imp fun place => .imp_left (isOpen place)
      exact (reads.sign separates).reads (ih later)

theorem reads_listed (each : ∀ piece ∈ pieces, Reads allowed Place.IsOpen piece) :
    Reads allowed Place.IsOpen (String.intercalate ", " pieces) :=
  reads_intercalate trivial (fun _ => id) (by decide) each

/-- A list in parentheses is read from any place from which its first parenthesis is. -/
theorem leads_parenthesized (opens : Leads allowed first "(" .between)
    (each : ∀ piece ∈ pieces, Reads allowed Place.IsQuiet piece) :
    Leads allowed first (Expression.parenthesized pieces) .between := by
  rw [Expression.parenthesized, String.append_assoc]
  have inside := reads_listed fun piece listed => (each piece listed).isOpen
  exact opens.append (inside.sign (by decide))

/-- A list in parentheses behind a word. -/
theorem leads_arguments (word : List Char)
    (each : ∀ piece ∈ pieces, Reads allowed Place.IsQuiet piece) :
    Leads allowed (.ofWord word) (Expression.parenthesized pieces) .between :=
  leads_parenthesized (Place.leads_ofWord word rfl (.fixed (by decide))) each

/-! ## Names -/

/-- A name behind a point. -/
theorem leads_pointName (quiet : first.IsQuiet)
    (name : ∀ char ∈ text.toList, isNameChar char = true) :
    Leads allowed first ("." ++ text) (.ofWord text.toList) :=
  quiet.leads (by simp) ((Leads.fixed (by decide)).append (leads_word name))

theorem Reads.pointName (reads : Reads allowed Place.IsQuiet text)
    (name : ∀ char ∈ more.toList, isNameChar char = true) :
    Leads allowed .between (text ++ "." ++ more) (.ofWord more.toList) := by
  obtain ⟨last, quiet, leads⟩ := reads
  rw [String.append_assoc]
  exact leads.append (leads_pointName quiet name)

/-- A member of a class is read as a function of the library if the class has the name of the
library. -/
theorem exists_leads_member {member : String} (owner : ClassName)
    (name : ∀ char ∈ member.toList, isNameChar char = true) : ∃ last,
      (last = .ofWord member.toList ∨
        classIdentifier owner = "$vm" ∧ last = .function member.toList) ∧
      Leads allowed .between (classIdentifier owner ++ "." ++ member) last := by
  have front : Leads allowed .between (classIdentifier owner) _ :=
    leads_word fun _ => isNameChar_classIdentifier
  rw [String.append_assoc]
  by_cases library : (classIdentifier owner).toList = libraryName
  · have place : Place.ofWord (classIdentifier owner).toList = .word libraryName := by
      rw [library]
      rfl
    refine ⟨_, .inr ⟨String.toList_injective library, rfl⟩, front.append ?_⟩
    rw [place]
    exact (Leads.fixed (by decide)).append (leads_function name)
  · exact ⟨_, .inl rfl, front.append (leads_pointName (Place.isQuiet_ofWord library) name)⟩

/-- A member of a class with a name that is not the library's. -/
theorem reads_member {member : String} (owner : ClassName)
    (name : ∀ char ∈ member.toList, isNameChar char = true) (other : member.toList ≠ libraryName) :
    Reads allowed Place.IsQuiet (classIdentifier owner ++ "." ++ member) := by
  obtain ⟨last, place, leads⟩ := exists_leads_member owner name
  refine ⟨last, ?_, leads⟩
  rcases place with rfl | ⟨_, rfl⟩
  · exact Place.isQuiet_ofWord other
  · trivial

theorem isNameChar_toString {number : Nat} :
    ∀ char ∈ (toString number).toList, isNameChar char = true := by
  intro char member
  rw [Nat.toString_eq_ofList_toDigits, String.toList_ofList] at member
  have digit := Nat.isDigit_of_mem_toDigits (by decide) (by decide) member
  simp [isNameChar, Char.isAlphanum, digit]

theorem isNameChar_append {one other : String}
    (first : ∀ char ∈ one.toList, isNameChar char = true)
    (second : ∀ char ∈ other.toList, isNameChar char = true) :
    ∀ char ∈ (one ++ other).toList, isNameChar char = true := by
  rw [String.toList_append]
  exact List.forall_mem_append.mpr ⟨first, second⟩

theorem isNameChar_variable {source : Variable} :
    ∀ char ∈ source.name.toList, isNameChar char = true := by
  cases source with
  | slot | temporary => exact isNameChar_append (by decide) isNameChar_toString
  | stack kind depth =>
    refine isNameChar_append (isNameChar_append (by decide) ?_) isNameChar_toString
    cases kind <;> decide
  | caught => decide

/-- The name of a variable is a word that is not the name of the library. -/
theorem reads_variable (source : Variable) : Reads allowed Place.IsQuiet source.name := by
  refine reads_word_of_ne isNameChar_variable ?_
  cases source <;> simp [Variable.name, libraryName]

/-! ## Constants -/

theorem isBare_of_isBare_toList {chars : List Char} (bare : ∀ char ∈ chars, isBare char = true) :
    IsBare (String.ofList chars) := by
  rwa [IsBare, String.toList_ofList]

theorem isBare_int (value : Int) : IsBare (toString value) := by
  cases value with
  | ofNat number => exact isBare_toString number
  | negSucc number => exact isBare_append.mpr ⟨by decide, isBare_toString _⟩

theorem isBare_positional (decimal : Decimal.Numeral) :
    ∀ char ∈ decimal.positional, isBare char = true := by
  have digits : ∀ char ∈ decimal.text, isBare char = true := fun char member =>
    isBare_of_isDigit (Nat.isDigit_of_mem_toDigits (by decide) (by decide) member)
  have zeros (count : Nat) : ∀ char ∈ List.replicate count '0', isBare char = true :=
    fun char member => List.eq_of_mem_replicate member ▸ rfl
  intro char member
  rw [Decimal.Numeral.positional] at member
  split at member
  · exact List.forall_mem_append.mpr ⟨digits, zeros _⟩ char member
  · rcases List.mem_append.mp member with front | behind
    · exact List.forall_mem_append.mpr ⟨zeros _, digits⟩ char (List.mem_of_mem_take front)
    · rcases List.mem_cons.mp behind with rfl | behind
      · rfl
      · exact List.forall_mem_append.mpr ⟨zeros _, digits⟩ char (List.mem_of_mem_drop behind)

theorem isBare_value (value : Decimal.Value) : IsBare value.literal := by
  have written {negative : Bool} {chars : List Char} (bare : ∀ char ∈ chars, isBare char = true) :
      IsBare (Decimal.signed negative chars) := by
    cases negative with
    | false => exact isBare_of_isBare_toList bare
    | true => exact isBare_of_isBare_toList (List.forall_mem_cons.mpr ⟨rfl, bare⟩)
  cases value with
  | nan => decide
  | infinite | zero => exact written (by decide)
  | finite negative magnitude => exact written (isBare_positional _)

theorem reads_constant (value : Constant) :
    Reads allowed Place.IsQuiet (constantLiteral value) := by
  cases value with
  | integer value => exact reads_of_isBare (isBare_int _)
  | float | double => exact reads_of_isBare (isBare_value _)
  | long value => exact reads_of_isBare (isBare_append.mpr ⟨isBare_int _, by decide⟩)
  | string value => exact .between (leads_stringLiteral value) trivial

/-! ## Expressions -/

/-- The functions that are called where a reference is written are allowed.  A super class with the
name of the library is taken for it.  A property must have a name that is a word, and not the name
of the library. -/
def Reference.CallsOnly (allowed : List Char → Prop) : Reference → Prop
  | function called => allowed called.name.toList
  | parent name => classIdentifier name = "$vm" → allowed "call".toList
  | property name => (∀ char ∈ name.toList, isNameChar char = true) ∧ name.toList ≠ libraryName
  | owner _ | exact _ _ _ => True

namespace Expression

theorem reads_asOperand (expression : Expression) (reads : Reads allowed Place.IsQuiet text) :
    Reads allowed Place.IsQuiet (expression.asOperand text) := by
  rw [asOperand]
  split
  · rw [String.append_assoc]
    exact .between ((Leads.fixed (by decide)).append (reads.isOpen.sign (by decide))) trivial
  · exact reads

theorem leads_operator (operator : Operator) :
    Leads allowed .between operator.symbol .between :=
  .fixed (by cases operator <;> decide)

/-- A function that the script has from the start is not one of the library. -/
theorem exists_leads_intrinsic (function : Intrinsic) :
    ∃ chars, Leads allowed .between function.name (.ofWord chars) := by
  cases function with
  | multiplyInt => exact ⟨"imul".toList, .fixed (by decide)⟩
  | roundFloat => exact ⟨"fround".toList, .fixed (by decide)⟩
  | bigInteger => exact ⟨"BigInt".toList, .fixed (by decide)⟩
  | number => exact ⟨"Number".toList, .fixed (by decide)⟩
  | wrapSigned => exact ⟨"asIntN".toList, .fixed (by decide)⟩
  | wrapUnsigned => exact ⟨"asUintN".toList, .fixed (by decide)⟩

/-- The name of the library and a function behind it. -/
theorem leads_path (function : Support.Function) :
    Leads allowed .between function.path (.function function.name.toList) :=
  .fixed (by cases function <;> decide)

theorem leads_call {read : List Char} (calls : allowed read) :
    Leads allowed (.function read) "(" .between :=
  ⟨List.forall_mem_singleton.mpr calls, rfl, by decide⟩

theorem methodProperty_ne (method : String) (type : MethodType) :
    (methodProperty method type).toList ≠ libraryName := by
  intro same
  have ends : EndsSmall libraryName := by decide
  obtain ⟨first, rest, begins, _⟩ := exists_typesChars_eq_cons type
  rw [methodProperty, String.toList_ofList, methodChars_eq] at same
  rw [← same] at ends
  exact not_endsSmall_typesChars type (ends.of_append _ (begins ▸ List.cons_ne_nil first rest))

theorem isNameChar_methodProperty (method : String) (type : MethodType) :
    ∀ char ∈ (methodProperty method type).toList, isNameChar char = true := by
  rw [methodProperty, String.toList_ofList, methodChars_eq]
  exact List.forall_mem_append.mpr
    ⟨fun _ => isNameChar_methodWord, fun _ => isNameChar_typesChars⟩

theorem isNameChar_fieldIdentifier (field : String) :
    ∀ char ∈ (fieldIdentifier field).toList, isNameChar char = true := by
  have start : ∀ char ∈ "fld_".toList, isNameChar char = true := by decide
  rw [toList_fieldIdentifier, List.forall_mem_append]
  exact ⟨start, fun _ => isNameChar_escapeName⟩

theorem fieldIdentifier_ne (field : String) : (fieldIdentifier field).toList ≠ libraryName := by
  rw [toList_fieldIdentifier]
  intro same
  have first : some 'f' = some '$' := congrArg List.head? same
  exact absurd first (by decide)

/-- A method of the prototype of a class. -/
theorem reads_prototype (owner : ClassName) (method : String) (type : MethodType) :
    Reads allowed Place.IsQuiet
      (classIdentifier owner ++ ".prototype." ++ methodProperty method type) := by
  obtain ⟨last, quiet, leads⟩ : Reads allowed Place.IsQuiet
      (classIdentifier owner ++ "." ++ "prototype") := reads_member owner (by decide) (by decide)
  have written : classIdentifier owner ++ ".prototype." ++ methodProperty method type =
      classIdentifier owner ++ "." ++ "prototype" ++ ("." ++ methodProperty method type) := by
    have dots : ".prototype." = "." ++ ("prototype" ++ ".") := rfl
    rw [dots]
    simp only [String.append_assoc]
  rw [written]
  exact ⟨_, Place.isQuiet_ofWord (methodProperty_ne method type),
    leads.append (leads_pointName quiet (isNameChar_methodProperty method type))⟩

mutual

/-- What is written for an expression calls only functions that it refers to. -/
theorem reads_text : (expression : Expression) →
    (∀ reference ∈ expression.references, reference.CallsOnly allowed) →
      Reads allowed Place.IsQuiet expression.text
  | .read source, _ => reads_variable source
  | .null, _ => reads_of_isBare (by decide)
  | .constant value, _ => reads_constant value
  | .negate operand, calls =>
    (Leads.fixed (by decide)).reads (reads_asOperand operand (operand.reads_text calls))
  | .binary operator left right, calls => by
    obtain ⟨first, second⟩ := List.forall_mem_append.mp calls
    have one := (reads_asOperand left (left.reads_text first)).isOpen
    have two := reads_asOperand right (right.reads_text second)
    exact (((one.sign (by decide)).append (leads_operator operator)).append
      (.fixed (by decide))).reads two
  | .conditional test yes no, calls => by
    obtain ⟨both, third⟩ := List.forall_mem_append.mp calls
    obtain ⟨first, second⟩ := List.forall_mem_append.mp both
    have one := (reads_asOperand test (test.reads_text first)).isOpen
    have two := reads_asOperand yes (yes.reads_text second)
    have three := reads_asOperand no (no.reads_text third)
    exact (((one.sign (by decide)).reads two).isOpen.sign (by decide)).reads three
  | .anyOf tests, calls =>
    reads_intercalate trivial (fun _ => Place.IsQuiet.isOpen) (by decide) (reads_texts tests calls)
  | .array items, calls => by
    have listed := reads_listed fun text member => (reads_texts items calls text member).isOpen
    exact .between (((Leads.fixed (by decide)).reads listed).sign (by decide)) trivial
  | .intrinsic function items, calls => by
    obtain ⟨chars, named⟩ := exists_leads_intrinsic function
    exact .between (named.append
      (leads_arguments chars (reads_texts items calls))) trivial
  | .support function items, calls => by
    obtain ⟨here, later⟩ := List.forall_mem_cons.mp calls
    exact .between ((leads_path function).append
      (leads_parenthesized (leads_call here) (reads_texts items later))) trivial
  | .new type, _ => by
    have named : Leads allowed .between ("new " ++ classIdentifier type) _ :=
      (Leads.fixed (by decide)).append (leads_word fun _ => isNameChar_classIdentifier)
    exact .between (named.append (Place.leads_ofWord _ rfl (.fixed (by decide)))) trivial
  | .staticField owner field, _ =>
    reads_member owner (isNameChar_fieldIdentifier field) (fieldIdentifier_ne field)
  | .property object name, calls => by
    obtain ⟨⟨word, other⟩, inside⟩ := List.forall_mem_cons.mp calls
    have read := reads_asOperand object (object.reads_text inside)
    exact ⟨_, Place.isQuiet_ofWord other, read.pointName word⟩
  | .staticCall owner method type items, calls => by
    obtain ⟨_, later⟩ := List.forall_mem_cons.mp calls
    exact .between ((leads_word fun _ => isNameChar_staticFunction).append
      (leads_arguments _ (reads_texts items later))) trivial
  | .methodCall receiver method type items, calls => by
    obtain ⟨first, later⟩ := List.forall_mem_append.mp calls
    have read := reads_asOperand receiver (receiver.reads_text first)
    exact .between ((read.pointName (isNameChar_methodProperty method type)).append
      (leads_arguments _ (reads_texts items later))) trivial
  | .exactCall owner method type items, calls => by
    obtain ⟨_, later⟩ := List.forall_mem_cons.mp calls
    obtain ⟨last, quiet, read⟩ := reads_prototype owner method type
    have called : Leads allowed last ".call" (.ofWord "call".toList) :=
      quiet.leads rfl (.fixed (by decide))
    exact .between ((read.append called).append
      (leads_arguments _ (reads_texts items later))) trivial

theorem reads_texts : (items : List Expression) →
    (∀ reference ∈ allReferences items, reference.CallsOnly allowed) →
      ∀ text ∈ texts items, Reads allowed Place.IsQuiet text
  | [], _ => List.forall_mem_nil _
  | first :: rest, calls => by
    obtain ⟨here, later⟩ := List.forall_mem_append.mp calls
    exact List.forall_mem_cons.mpr ⟨first.reads_text here, reads_texts rest later⟩

end

end Expression

/-! ## Lines -/

variable {good : Part → Prop} {line : Line}

theorem reads_statement {statement : Statement}
    (calls : ∀ reference ∈ statement.references, reference.CallsOnly allowed) :
    Reads allowed Place.IsOpen statement.text := by
  cases statement with
  | assign target value =>
    have named : Leads allowed .between (target.name ++ " = ") .between :=
      (reads_variable target).isOpen.sign (by decide)
    exact .between ((named.reads (value.reads_text calls)).isOpen.sign (by decide)) trivial
  | store place value =>
    obtain ⟨first, second⟩ := List.forall_mem_append.mp calls
    have named : Leads allowed .between (place.text ++ " = ") .between :=
      (place.reads_text first).isOpen.sign (by decide)
    exact .between ((named.reads (value.reads_text second)).isOpen.sign (by decide)) trivial
  | evaluate expression =>
    exact .between ((expression.reads_text calls).isOpen.sign (by decide)) trivial
  | throw exception =>
    have thrown : Leads allowed .between "throw " .between := .fixed (by decide)
    exact .between ((thrown.reads (exception.reads_text calls)).isOpen.sign (by decide)) trivial

theorem reads_conditionText {condition : Expression}
    (calls : ∀ reference ∈ condition.references, reference.CallsOnly allowed) :
    Leads allowed .between (conditionText condition) .between :=
  ((Leads.fixed (by decide)).reads (condition.reads_text calls)).isOpen.sign (by decide)

theorem isBare_intercalate {separator : String} (bare : IsBare separator)
    (each : ∀ piece ∈ pieces, IsBare piece) : IsBare (String.intercalate separator pieces) := by
  induction pieces with
  | nil => exact (by decide : IsBare "")
  | cons piece rest ih =>
    obtain ⟨here, later⟩ := List.forall_mem_cons.mp each
    cases rest with
    | nil => rwa [String.intercalate_singleton]
    | cons next others =>
      rw [String.intercalate_cons_cons, isBare_append, isBare_append]
      exact ⟨⟨here, bare⟩, ih later⟩

theorem isBare_caseText (keys : List Int32) (isDefault : Bool) :
    IsBare (caseText keys isDefault) := by
  have labels : ∀ label ∈ keys.map fun key => "case " ++ toString key.toInt ++ ":",
      IsBare label := by
    refine List.forall_mem_map.mpr fun key _ => ?_
    simp only [isBare_append]
    exact ⟨⟨by decide, isBare_int _⟩, by decide⟩
  rw [caseText, isBare_append]
  refine ⟨isBare_intercalate (by decide) ?_, by decide⟩
  split
  · exact List.forall_mem_append.mpr ⟨labels, by decide⟩
  · exact labels

/-- A line that refers to labels at most calls nothing. -/
theorem Line.IsFrame.reads (frame : line.IsFrame) : Reads allowed Place.IsOpen line.text := by
  cases frame with
  | catches => exact .between (.fixed (by decide)) trivial
  | cases keys isDefault => exact (reads_of_isBare (isBare_caseText keys isDefault)).isOpen
  | _ =>
    refine (reads_of_isBare ?_).isOpen
    simp only [Line.text, isBare_append, isBare_toString, and_true]
    decide

/-- A line that is written for a part calls only functions that the part refers to. -/
theorem Line.WrittenFor.reads {part : Part} (written : line.WrittenFor part)
    (calls : ∀ reference ∈ part.references, reference.CallsOnly allowed) :
    Reads allowed Place.IsOpen line.text := by
  cases written with
  | statement statement => exact reads_statement calls
  | condition condition => exact .between (reads_conditionText calls) trivial
  | laterCondition condition =>
    exact .between ((Leads.fixed (by decide)).append (reads_conditionText calls)) trivial
  | key source =>
    have named : Leads allowed .between "switch (" .between := .fixed (by decide)
    exact .between ((named.reads (reads_variable source)).isOpen.sign (by decide)) trivial
  | result source =>
    have named : Leads allowed .between "return " .between := .fixed (by decide)
    exact .between ((named.reads (reads_variable source)).isOpen.sign (by decide)) trivial

/-- A line that is written for parts with a property calls only functions that these refer to. -/
theorem Line.Shows.reads (shows : line.Shows good)
    (calls : ∀ part, good part → ∀ reference ∈ part.references, reference.CallsOnly allowed) :
    Reads allowed Place.IsOpen line.text := by
  obtain frame | ⟨part, holds, written⟩ := shows
  · exact frame.reads
  · exact written.reads (calls part holds)

/-- Indentation changes nothing. -/
theorem Reads.indent (reads : Reads allowed ends text) (depth : Nat) :
    Reads allowed ends (Line.indent depth text) := by
  have tabs : calledFrom .between (List.replicate depth '\t') = [] ∧
      (List.replicate depth '\t').foldl Place.next .between = .between := by
    induction depth with
    | zero => exact ⟨rfl, rfl⟩
    | succ depth ih => exact ih
  have oneLine := (oneLine_indent depth).mpr (by decide : OneLine "")
  refine Leads.reads (.fixed ⟨?_, ?_⟩) reads
  · rwa [String.toList_ofList]
  · exact (oneLine_append.mp oneLine).1

end Bytescript.Script
