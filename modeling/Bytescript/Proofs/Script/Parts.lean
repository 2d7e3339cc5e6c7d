import Bytescript.Script.Skeleton

/-!
# What the lines of a method are written for

The code of a method is put together from few things that refer to variables, classes or functions:
the statements and the exits of its blocks, and what handlers do with an exception.  All other
lines only open, close or leave something that a label names.  So whatever holds of these parts
holds of everything that the lines of a method refer to.
-/

set_option autoImplicit false

namespace Bytescript.Script

/-! ## Parts -/

/-- Something in the code of a method that is written in a line and may refer to variables. -/
inductive Part where
  | statement (statement : Statement)
  /-- A condition that decides how execution goes on. -/
  | condition (condition : Expression)
  /-- The variable whose value a switch looks at. -/
  | key (source : Variable)
  /-- The variable whose value the method gives back. -/
  | result (source : Variable)

/-- The variables that occur in a part. -/
def Part.usedVariables : Part → List Variable
  | .statement done => done.usedVariables
  | .condition test => test.usedVariables
  | .key source | .result source => [source]

/-- What has to be written to leave a block, apart from labels. -/
def Exit.parts : Exit → List Part
  | goto _ | throw | leave none => []
  | branch condition _ _ => [.condition condition]
  | switch source _ _ => [.key source]
  | leave (some source) => [.result source]

/-- What a block does, and how it is left. -/
def BlockCode.parts (code : BlockCode) : List Part :=
  code.statements.map .statement ++ code.exit.parts

/-- What is done with an exception that was caught, whatever its class. -/
inductive Part.IsHandling : Part → Prop where
  | wrap : IsHandling (.statement wrapCaught)
  | bind : IsHandling (.statement bindCaught)
  | pass : IsHandling (.statement throwCaught)

/-- Everything that is done with any exception that was caught has a property. -/
def HandlingIs (good : Part → Prop) : Prop := ∀ ⦃part : Part⦄, part.IsHandling → good part

mutual

/-- All parts of nested code have a property.  A block whose exceptions are handled has the parts
that handle them. -/
def Skeleton.All (good : Part → Prop) : Skeleton → Prop
  | .block _ statements recovery =>
    (∀ statement ∈ statements, good (.statement statement)) ∧
      (recovery ≠ .rethrow → HandlingIs good) ∧ recovery.All good
  | .andThen first second => first.All good ∧ second.All good
  | .labelled _ body | .loop _ body => body.All good
  | .choose condition yes no => good (.condition condition) ∧ yes.All good ∧ no.All good
  | .switch source cases => good (.key source) ∧ cases.All good
  | .leave (some source) => good (.result source)
  | .nothing | .breakTo _ | .continueTo _ | .dispatchTo _ | .leave none => True

def Cases.All (good : Part → Prop) : Cases → Prop
  | .nil => True
  | .cons _ _ body rest => body.All good ∧ rest.All good

/-- All parts of the bodies of a recovery have a property, and so have its tests for classes. -/
def Recovery.All (good : Part → Prop) : Recovery → Prop
  | .rethrow => True
  | .always body => body.All good
  | .whenAny classes body otherwise =>
    good (.condition (isCaught classes)) ∧ body.All good ∧ otherwise.All good

end

/-- All parts of a dispatch have a property. -/
structure Dispatch.All (good : Part → Prop) (dispatch : Dispatch) : Prop where
  cases : ∀ entry ∈ dispatch.cases, entry.2.All good
  handling : dispatch.recoveries ≠ [] → HandlingIs good
  recoveries : ∀ entry ∈ dispatch.recoveries, entry.2.All good

/-- All parts of the code of a method have a property. -/
def Body.All (good : Part → Prop) : Body → Prop
  | .structured skeleton => skeleton.All good
  | .dispatched dispatch => dispatch.All good

/-! ## Lines -/

/-- A line that opens, closes or leaves something, and refers to labels at most. -/
inductive Line.IsFrame : Line → Prop where
  | tries : IsFrame (.opening "try \x7b")
  | catches : IsFrame (.reopening "\x7d catch ($e) \x7b")
  | otherwise : IsFrame (.reopening "\x7d else \x7b")
  | closes : IsFrame (.closing "\x7d")
  | part (label : Nat) : IsFrame (.opening ("B" ++ toString label ++ ": \x7b"))
  | loop (label : Nat) : IsFrame (.opening ("L" ++ toString label ++ ": while (true) \x7b"))
  | breakTo (label : Nat) : IsFrame (.plain ("break B" ++ toString label ++ ";"))
  | continueTo (label : Nat) : IsFrame (.plain ("continue L" ++ toString label ++ ";"))
  | dispatchTo (label : Nat) : IsFrame (.plain ("pc = " ++ toString label ++ "; continue;"))
  | cases (keys : List Int32) (isDefault : Bool) : IsFrame (.opening (caseText keys isDefault))
  | leave : IsFrame (.plain "return;")
  | dispatchEntry (label : Nat) : IsFrame (.plain ("var pc = " ++ toString label ++ ";"))
  | dispatchLoop : IsFrame (.opening "for (;;) \x7b")
  | dispatchSwitch : IsFrame (.opening "switch (pc) \x7b")
  | dispatchCase (label : Nat) : IsFrame (.opening ("case " ++ toString label ++ ": \x7b"))
  | dispatchRecovery (label : Nat) :
    IsFrame (.opening ("if (pc === " ++ toString label ++ ") \x7b"))

/-- How a part is written. -/
inductive Line.WrittenFor : Part → Line → Prop where
  | statement (statement : Statement) : WrittenFor (.statement statement) (.plain statement.text)
  | condition (condition : Expression) :
    WrittenFor (.condition condition) (.opening (conditionText condition))
  | laterCondition (condition : Expression) :
    WrittenFor (.condition condition) (.reopening ("\x7d else " ++ conditionText condition))
  | key (source : Variable) :
    WrittenFor (.key source) (.opening ("switch (" ++ source.name ++ ") \x7b"))
  | result (source : Variable) :
    WrittenFor (.result source) (.plain ("return " ++ source.name ++ ";"))

/-- A line for a part with a property, or for no part at all. -/
def Line.Shows (good : Part → Prop) (line : Line) : Prop :=
  line.IsFrame ∨ ∃ part, good part ∧ line.WrittenFor part

/-- Lines for parts with a property. -/
def LinesShow (good : Part → Prop) (lines : List Line) : Prop := ∀ line ∈ lines, line.Shows good

variable {good : Part → Prop} {line : Line} {lines more : List Line}

theorem linesShow_nil : LinesShow good [] := List.forall_mem_nil _

theorem LinesShow.frame (first : line.IsFrame) (rest : LinesShow good lines) :
    LinesShow good (line :: lines) :=
  List.forall_mem_cons.mpr ⟨.inl first, rest⟩

theorem LinesShow.part {part : Part} (holds : good part) (first : line.WrittenFor part)
    (rest : LinesShow good lines) : LinesShow good (line :: lines) :=
  List.forall_mem_cons.mpr ⟨.inr ⟨part, holds, first⟩, rest⟩

theorem LinesShow.append (one : LinesShow good lines) (two : LinesShow good more) :
    LinesShow good (lines ++ more) :=
  List.forall_mem_append.mpr ⟨one, two⟩

theorem linesShow_of_isFrame (frame : line.IsFrame) : LinesShow good [line] :=
  .frame frame linesShow_nil

theorem linesShow_of_part {part : Part} (holds : good part) (written : line.WrittenFor part) :
    LinesShow good [line] :=
  .part holds written linesShow_nil

/-- Lines that are closed by a brace. -/
theorem LinesShow.closed (inside : LinesShow good lines) :
    LinesShow good (lines ++ [.closing "\x7d"]) :=
  inside.append (linesShow_of_isFrame .closes)

theorem linesShow_statements {statements : List Statement}
    (all : ∀ statement ∈ statements, good (.statement statement)) :
    LinesShow good (statementLines statements) := by
  intro line member
  obtain ⟨statement, listed, rfl⟩ := List.mem_map.mp member
  exact .inr ⟨_, all statement listed, .statement statement⟩

/-! ## The lines of nested code -/

/-- A block whose exceptions are handled. -/
theorem linesShow_try {statements : List Statement} {handlingLines : List Line}
    (all : ∀ statement ∈ statements, good (.statement statement)) (handling : HandlingIs good)
    (handled : LinesShow good handlingLines) :
    LinesShow good (.opening "try \x7b" :: statementLines statements
      ++ .reopening "\x7d catch ($e) \x7b" :: .plain wrapCaught.text :: handlingLines
      ++ [.closing "\x7d"]) :=
  ((LinesShow.frame .tries (linesShow_statements all)).append
    (.frame .catches (.part (handling .wrap) (.statement _) handled))).closed

mutual

theorem linesShow_skeleton : (skeleton : Skeleton) → skeleton.All good →
    LinesShow good skeleton.lines
  | .nothing, _ => linesShow_nil
  | .block _ _ .rethrow, all => linesShow_statements all.1
  | .block _ _ (.always body), all =>
    linesShow_try all.1 (all.2.1 nofun)
      (linesShow_firstLines (.always body) (all.2.1 nofun) all.2.2)
  | .block _ _ (.whenAny classes body otherwise), all =>
    linesShow_try all.1 (all.2.1 nofun)
      (linesShow_firstLines (.whenAny classes body otherwise) (all.2.1 nofun) all.2.2)
  | .andThen first second, all =>
    (linesShow_skeleton first all.1).append (linesShow_skeleton second all.2)
  | .labelled label body, all =>
    (LinesShow.frame (.part label) (linesShow_skeleton body all)).closed
  | .loop label body, all =>
    (LinesShow.frame (.loop label) (linesShow_skeleton body all)).closed
  | .breakTo label, _ => linesShow_of_isFrame (.breakTo label)
  | .continueTo label, _ => linesShow_of_isFrame (.continueTo label)
  | .dispatchTo label, _ => linesShow_of_isFrame (.dispatchTo label)
  | .choose condition yes no, all =>
    ((LinesShow.part all.1 (.condition condition) (linesShow_skeleton yes all.2.1)).append
      (.frame .otherwise (linesShow_skeleton no all.2.2))).closed
  | .switch source cases, all =>
    (LinesShow.part all.1 (.key source) (linesShow_cases cases all.2)).closed
  | .leave (some source), all => linesShow_of_part all (.result source)
  | .leave none, _ => linesShow_of_isFrame .leave

theorem linesShow_cases : (cases : Cases) → cases.All good → LinesShow good cases.lines
  | .nil, _ => linesShow_nil
  | .cons keys isDefault body rest, all =>
    (LinesShow.frame (.cases keys isDefault) (linesShow_skeleton body all.1)).append
      (.frame .closes (linesShow_cases rest all.2))

theorem linesShow_firstLines : (recovery : Recovery) → HandlingIs good → recovery.All good →
    LinesShow good recovery.firstLines
  | .rethrow, handling, _ => linesShow_of_part (handling .pass) (.statement _)
  | .always body, handling, all =>
    .part (handling .bind) (.statement _) (linesShow_skeleton body all)
  | .whenAny _ body otherwise, handling, all =>
    (LinesShow.part all.1 (.condition _)
      (.part (handling .bind) (.statement _) (linesShow_skeleton body all.2.1))).append
      (linesShow_laterLines otherwise handling all.2.2)

theorem linesShow_laterLines : (recovery : Recovery) → HandlingIs good → recovery.All good →
    LinesShow good recovery.laterLines
  | .rethrow, handling, _ =>
    .frame .otherwise
      (.part (handling .pass) (.statement _) (linesShow_of_isFrame .closes))
  | .always body, handling, all =>
    (LinesShow.frame .otherwise
      (.part (handling .bind) (.statement _) (linesShow_skeleton body all))).closed
  | .whenAny _ body otherwise, handling, all =>
    (LinesShow.part all.1 (.laterCondition _)
      (.part (handling .bind) (.statement _) (linesShow_skeleton body all.2.1))).append
      (linesShow_laterLines otherwise handling all.2.2)

end

/-- A recovery whose bodies jump out of a dispatch. -/
theorem linesShow_dispatchLines (recovery : Recovery) (handling : HandlingIs good)
    (all : recovery.All good) : LinesShow good recovery.dispatchLines := by
  fun_induction Recovery.dispatchLines recovery with
  | case1 => exact linesShow_nil
  | case2 body => exact .part (handling .bind) (.statement _) (linesShow_skeleton body all)
  | case3 classes body otherwise ih =>
    refine LinesShow.append ?_ (.frame .closes (ih all.2.2))
    exact .part all.1 (.condition _)
      (.part (handling .bind) (.statement _) (linesShow_skeleton body all.2.1))

/-! ## Blocks side by side -/

namespace Dispatch.All

variable {dispatch : Dispatch}

theorem switchLines (all : dispatch.All good) : LinesShow good dispatch.switchLines := by
  refine (LinesShow.frame .dispatchSwitch fun line member => ?_).closed
  obtain ⟨⟨label, body⟩, listed, inside⟩ := List.mem_flatMap.mp member
  exact (LinesShow.frame (.dispatchCase label)
    (linesShow_skeleton body (all.cases _ listed))).closed line inside

theorem loopLines (all : dispatch.All good) : LinesShow good dispatch.loopLines := by
  rw [Dispatch.loopLines]
  split
  next => exact all.switchLines
  next some =>
    have handling : HandlingIs good := all.handling fun none => some (by rw [none]; rfl)
    refine LinesShow.append (.append (.frame .tries all.switchLines) (.frame .catches ?_))
      (.part (handling .pass) (.statement _) (linesShow_of_isFrame .closes))
    refine .part (handling .wrap) (.statement _) fun line member => ?_
    obtain ⟨⟨label, recovery⟩, listed, inside⟩ := List.mem_flatMap.mp member
    exact (LinesShow.frame (.dispatchRecovery label)
      (linesShow_dispatchLines recovery handling (all.recoveries _ listed))).closed line inside

end Dispatch.All

/-- The lines of a method are written for its parts. -/
theorem linesShow_body {body : Body} (all : body.All good) : LinesShow good body.lines := by
  cases body with
  | structured skeleton => exact linesShow_skeleton skeleton all
  | dispatched dispatch =>
    exact (LinesShow.frame (.dispatchEntry dispatch.entry)
      (.frame .dispatchLoop (Dispatch.All.loopLines all))).closed

end Bytescript.Script
