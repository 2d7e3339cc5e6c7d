import Bytescript.Script.Skeleton

/-!
# Lines inside of a function

However the code of a method is written, its lines end the parts that they begin and no others.  So
inside of a function no line comes back to the depth of the function itself: all of them begin with
a tab, whatever they say.
-/

set_option autoImplicit false

namespace Bytescript.Script

/-! ## Counting parts -/

/-- Lines that lead from a number of open parts to another one, and never end a part that is not
open. -/
def LeadsTo : (parts : Nat) → List Line → (last : Nat) → Prop
  | parts, [], last => parts = last
  | parts, .plain _ :: rest, last => LeadsTo parts rest last
  | parts, .opening _ :: rest, last => LeadsTo (parts + 1) rest last
  | 0, .closing _ :: _, _ => False
  | parts + 1, .closing _ :: rest, last => LeadsTo parts rest last
  | 0, .reopening _ :: _, _ => False
  | parts + 1, .reopening _ :: rest, last => LeadsTo (parts + 1) rest last

/-- Lines that end the parts that they begin. -/
def Closed (lines : List Line) : Prop := ∀ parts, LeadsTo parts lines parts

variable {parts middle last : Nat} {lines more : List Line} {text : String}

theorem LeadsTo.append (one : LeadsTo parts lines middle) (two : LeadsTo middle more last) :
    LeadsTo parts (lines ++ more) last := by
  fun_induction LeadsTo parts lines middle with
  | case1 parts => exact one ▸ two
  | case2 parts text rest middle ih => exact ih one two
  | case3 parts text rest middle ih => exact ih one two
  | case4 => exact one.elim
  | case5 parts text rest middle ih => exact ih one two
  | case6 => exact one.elim
  | case7 parts text rest middle ih => exact ih one two

/-- A line that ends a part and begins the next one. -/
theorem LeadsTo.next (text : String) (rest : LeadsTo (parts + 1) lines last) :
    LeadsTo (parts + 1) (.reopening text :: lines) last := rest

theorem leadsTo_closing (parts : Nat) (text : String) :
    LeadsTo (parts + 1) [.closing text] parts := rfl

namespace Closed

theorem nil : Closed [] := fun _ => rfl

theorem plain (text : String) (rest : Closed lines) : Closed (.plain text :: lines) := rest

theorem append (one : Closed lines) (two : Closed more) : Closed (lines ++ more) :=
  fun parts => (one parts).append (two parts)

/-- Lines between the first line of a part and the last one. -/
theorem part (first last : String) (inside : Closed lines) :
    Closed (.opening first :: lines ++ [.closing last]) :=
  fun parts => (inside (parts + 1)).append (leadsTo_closing parts last)

/-- Lines of a part with a line that ends it and begins the next one. -/
theorem twoParts (first between last : String) (one : Closed lines) (two : Closed more) :
    Closed (.opening first :: lines ++ .reopening between :: more ++ [.closing last]) :=
  fun parts => ((one (parts + 1)).append (.next between (two (parts + 1)))).append
    (leadsTo_closing parts last)

theorem flatMap {α : Type} {pieces : List α} {linesOf : α → List Line}
    (each : ∀ piece, Closed (linesOf piece)) : Closed (pieces.flatMap linesOf) := by
  induction pieces with
  | nil => exact nil
  | cons piece rest ih => exact (each piece).append ih

theorem plains (texts : List String) : Closed (texts.map .plain) := by
  induction texts with
  | nil => exact nil
  | cons text rest ih => exact ih

theorem statements (statements : List Statement) : Closed (statementLines statements) := by
  have texts : statementLines statements = (statements.map Statement.text).map .plain :=
    List.map_map.symm
  exact texts ▸ .plains _

end Closed

/-- Lines that neither begin nor end a part are given by their texts. -/
theorem exists_plains {holds : String → Prop}
    (each : ∀ line ∈ lines, ∃ text, line = .plain text ∧ holds text) :
    ∃ texts : List String, lines = texts.map .plain ∧ ∀ text ∈ texts, holds text := by
  induction lines with
  | nil => exact ⟨[], rfl, List.forall_mem_nil _⟩
  | cons line rest ih =>
    obtain ⟨⟨text, rfl, here⟩, later⟩ := List.forall_mem_cons.mp each
    obtain ⟨texts, rfl, all⟩ := ih later
    exact ⟨text :: texts, rfl, List.forall_mem_cons.mpr ⟨here, all⟩⟩

/-! ## The code of a method -/

mutual

theorem Closed.skeleton : (skeleton : Skeleton) → Closed skeleton.lines
  | .nothing => .nil
  | .block _ statements .rethrow => .statements statements
  | .block _ statements (.always body) =>
    .twoParts _ _ _ (.statements statements) (.plain _ (.firstLines (.always body)))
  | .block _ statements (.whenAny classes body otherwise) =>
    .twoParts _ _ _ (.statements statements)
      (.plain _ (.firstLines (.whenAny classes body otherwise)))
  | .andThen first second => (Closed.skeleton first).append (.skeleton second)
  | .labelled _ body => .part _ _ (.skeleton body)
  | .loop _ body => .part _ _ (.skeleton body)
  | .breakTo _ => .plain _ .nil
  | .continueTo _ => .plain _ .nil
  | .dispatchTo _ => .plain _ .nil
  | .choose _ yes no => .twoParts _ _ _ (.skeleton yes) (.skeleton no)
  | .switch _ cases => .part _ _ (.cases cases)
  | .leave (some _) => .plain _ .nil
  | .leave none => .plain _ .nil

theorem Closed.cases : (cases : Cases) → Closed cases.lines
  | .nil => .nil
  | .cons _ _ body rest => fun parts =>
    (Closed.skeleton body (parts + 1)).append (Closed.cases rest parts)

theorem Closed.firstLines : (recovery : Recovery) → Closed recovery.firstLines
  | .rethrow => .plain _ .nil
  | .always body => .plain _ (.skeleton body)
  | .whenAny _ body otherwise => fun parts =>
    (Closed.skeleton body (parts + 1)).append (leadsTo_laterLines otherwise parts)

/-- The lines of a recovery after a condition end the part that the condition began. -/
theorem leadsTo_laterLines : (recovery : Recovery) → (parts : Nat) →
    LeadsTo (parts + 1) recovery.laterLines parts
  | .rethrow, _ => rfl
  | .always body, parts =>
    (Closed.skeleton body (parts + 1)).append (leadsTo_closing parts "\x7d")
  | .whenAny _ body otherwise, parts =>
    (Closed.skeleton body (parts + 1)).append (leadsTo_laterLines otherwise parts)

end

theorem Closed.dispatchLines (recovery : Recovery) : Closed recovery.dispatchLines := by
  fun_induction Recovery.dispatchLines recovery with
  | case1 => exact .nil
  | case2 body => exact .plain _ (.skeleton body)
  | case3 classes body otherwise ih =>
    exact fun parts => (Closed.skeleton body (parts + 1)).append (ih parts)

theorem Closed.dispatch (dispatch : Dispatch) : Closed dispatch.lines := by
  have cases : Closed dispatch.switchLines :=
    .part _ _ (.flatMap fun entry => .part _ _ (.skeleton entry.2))
  refine .plain _ (.part _ _ ?_)
  rw [Dispatch.loopLines]
  split
  · exact cases
  · have recoveries : Closed (dispatch.recoveries.flatMap Dispatch.recoveryLines) :=
      .flatMap fun entry => .part _ _ (.dispatchLines entry.2)
    have handling := Closed.plain wrapCaught.text
      (recoveries.append (.plain throwCaught.text .nil))
    simpa using Closed.twoParts "try \x7b" "\x7d catch ($e) \x7b" "\x7d" cases handling

/-- **The code of a method ends the parts that it begins, and no others.** -/
theorem Closed.body (body : Body) : Closed body.lines := by
  cases body with
  | structured skeleton => exact .skeleton skeleton
  | dispatched dispatch => exact .dispatch dispatch

/-! ## Tabs -/

/-- A finished line that begins with a tab. -/
def IsIndented (line : String) : Prop := line.toList.head? = some '\t'

namespace Line

theorem indent_zero (text : String) : indent 0 text = text := String.empty_append

theorem isIndented_indent (depth : Nat) (text : String) : IsIndented (indent (depth + 1) text) := by
  rw [IsIndented, indent, String.toList_append, String.toList_ofList]
  rfl

theorem indentAll_append (depth : Nat) (lines more : List Line) : indentAll depth (lines ++ more) =
    indentAll depth lines ++ indentAll (lines.foldl depthAfter depth) more := by
  induction lines generalizing depth with
  | nil => rfl
  | cons line rest ih =>
    rw [List.cons_append, indentAll, ih, indentAll, List.foldl_cons, List.cons_append]

theorem indentAll_plain_cons (text : String) (lines : List Line) :
    indentAll 0 (plain text :: lines) = text :: indentAll 0 lines := by
  rw [indentAll, depthAt, depthAfter, indent_zero]
  rfl

/-- Lines that neither begin nor end a part are written as they are. -/
theorem indentAll_plain (texts : List String) : indentAll 0 (texts.map plain) = texts := by
  induction texts with
  | nil => rfl
  | cons text rest ih =>
    rw [List.map_cons, indentAll_plain_cons, ih]

end Line

theorem LeadsTo.depthAfter (leads : LeadsTo parts lines last) :
    lines.foldl Line.depthAfter parts = last := by
  fun_induction LeadsTo parts lines last with
  | case1 parts => exact leads
  | case2 parts text rest last ih => exact ih leads
  | case3 parts text rest last ih => exact ih leads
  | case4 => exact leads.elim
  | case5 parts text rest last ih => exact ih leads
  | case6 => exact leads.elim
  | case7 parts text rest last ih => exact ih leads

/-- Lines that are inside of some part, and remain inside of it, begin with a tab. -/
theorem LeadsTo.isIndented (leads : LeadsTo parts lines last) :
    ∀ line ∈ Line.indentAll (parts + 1) lines, IsIndented line := by
  fun_induction LeadsTo parts lines last with
  | case1 => exact List.forall_mem_nil _
  | case2 parts text rest last ih =>
    exact List.forall_mem_cons.mpr ⟨Line.isIndented_indent _ _, ih leads⟩
  | case3 parts text rest last ih =>
    exact List.forall_mem_cons.mpr ⟨Line.isIndented_indent _ _, ih leads⟩
  | case4 => exact leads.elim
  | case5 parts text rest last ih =>
    exact List.forall_mem_cons.mpr ⟨Line.isIndented_indent _ _, ih leads⟩
  | case6 => exact leads.elim
  | case7 parts text rest last ih =>
    exact List.forall_mem_cons.mpr ⟨Line.isIndented_indent _ _, ih leads⟩

/-- The lines of a function are its first one, its last one, and indented ones between them. -/
theorem Closed.indentAll_part (inside : Closed lines) (first last : String) :
    Line.indentAll 0 (.opening first :: lines ++ [.closing last]) =
        first :: Line.indentAll 1 lines ++ [last] ∧
      ∀ line ∈ Line.indentAll 1 lines, IsIndented line := by
  refine ⟨?_, (inside 0).isIndented⟩
  have back : lines.foldl Line.depthAfter (Line.depthAfter 0 (.opening first)) = 1 :=
    (inside 1).depthAfter
  rw [Line.indentAll_append, List.foldl_cons, back, Line.indentAll, Line.indentAll, Line.depthAt,
    Line.depthAt, Line.text, Line.text, Line.indent_zero, Line.indent_zero, Line.indentAll,
    Line.depthAfter]

end Bytescript.Script
