import Bytescript.Proofs.Script.Label

/-!
# Lines that nest

Lines nest if every part that they open is closed again, if nothing is closed that they did not
open, if each jump stands inside of what it names, and if no label is used again inside of itself.
Lines that nest come back to the depth at which they begin, and never go above it.  The lines of
nested code nest if its jumps and labels do.
-/

set_option autoImplicit false

namespace Bytescript.Script

/-! ## Lines -/

/-- Lines that lead from some open parts to others.  The parts are given by the lines that opened
them, the innermost first. -/
def Nests : (parts : List String) → List Line → (last : List String) → Prop
  | parts, [], last => parts = last
  | parts, .plain text :: rest, last =>
    (∀ label, (text = breakText label → partText label ∈ parts) ∧
      (text = continueText label → loopText label ∈ parts)) ∧ Nests parts rest last
  | parts, .opening text :: rest, last =>
    (∀ label, text = partText label ∨ text = loopText label → text ∉ parts) ∧
      Nests (text :: parts) rest last
  | [], .closing _ :: _, _ => False
  | _ :: parts, .closing _ :: rest, last => Nests parts rest last
  | [], .reopening _ :: _, _ => False
  | _ :: parts, .reopening text :: rest, last =>
    (∀ label, text = partText label ∨ text = loopText label → text ∉ parts) ∧
      Nests (text :: parts) rest last

variable {parts middle last : List String} {lines more : List Line}

theorem nests_append : Nests parts (lines ++ more) last ↔
    ∃ middle, Nests parts lines middle ∧ Nests middle more last := by
  fun_induction Nests parts lines last with
  | case1 parts => simp [Nests]
  | case2 parts text rest last ih => simp [Nests, ih, and_assoc]
  | case3 parts text rest last ih => simp [Nests, ih, and_assoc]
  | case4 => simp [Nests]
  | case5 part parts text rest last ih => simp [Nests, ih]
  | case6 => simp [Nests]
  | case7 part parts text rest last ih => simp [Nests, ih, and_assoc]

theorem Nests.append (one : Nests parts lines middle) (two : Nests middle more last) :
    Nests parts (lines ++ more) last :=
  nests_append.mpr ⟨middle, one, two⟩

/-- The depth at which lines end is given by the parts that are open there. -/
theorem Nests.depth (nests : Nests parts lines last) (depth : Nat) :
    lines.foldl Line.depthAfter (depth + parts.length) = depth + last.length := by
  fun_induction Nests parts lines last with
  | case1 parts => rw [← nests]; rfl
  | case2 parts text rest last ih => exact ih nests.2
  | case3 parts text rest last ih => exact ih nests.2
  | case4 => exact nests.elim
  | case5 part parts text rest last ih => exact ih nests
  | case6 => exact nests.elim
  | case7 part parts text rest last ih => exact ih nests.2

/-- A line that ends a part. -/
def Line.Ends : Line → Prop
  | .closing _ | .reopening _ => True
  | .plain _ | .opening _ => False

/-- The depth is given back as it was, and no part is ended that was not opened here. -/
def Balanced (lines : List Line) : Prop :=
  ∀ depth, lines.foldl Line.depthAfter depth = depth ∧
    ∀ before line after, lines = before ++ line :: after → line.Ends →
      depth < before.foldl Line.depthAfter depth

theorem Nests.balanced (nests : Nests [] lines []) : Balanced lines := by
  intro depth
  refine ⟨nests.depth depth, ?_⟩
  rintro before line after rfl ends
  obtain ⟨middle, front, back⟩ := nests_append.mp nests
  have reached := front.depth depth
  rw [List.length_nil, Nat.add_zero] at reached
  rw [reached]
  cases middle with
  | nil => cases line <;> first | exact ends.elim | exact back.elim
  | cons part middle => simp

/-! ## Nested code -/

mutual

/-- Every jump stands inside of a part with its label, and no part stands inside of another one
with the same label. -/
def Skeleton.Scoped : (parts loops : List Nat) → Skeleton → Prop
  | parts, loops, .block _ statements recovery =>
    (∀ statement ∈ statements, statement.IsAction) ∧ recovery.Scoped parts loops
  | parts, loops, .andThen first second =>
    first.Scoped parts loops ∧ second.Scoped parts loops
  | parts, loops, .labelled label body => label ∉ parts ∧ body.Scoped (label :: parts) loops
  | parts, loops, .loop label body => label ∉ loops ∧ body.Scoped parts (label :: loops)
  | parts, _, .breakTo label => label ∈ parts
  | _, loops, .continueTo label => label ∈ loops
  | parts, loops, .choose _ yes no => yes.Scoped parts loops ∧ no.Scoped parts loops
  | parts, loops, .switch _ cases => cases.Scoped parts loops
  | _, _, .nothing | _, _, .dispatchTo _ | _, _, .leave _ => True

def Cases.Scoped : (parts loops : List Nat) → Cases → Prop
  | _, _, .nil => True
  | parts, loops, .cons _ _ body rest => body.Scoped parts loops ∧ rest.Scoped parts loops

def Recovery.Scoped : (parts loops : List Nat) → Recovery → Prop
  | _, _, .rethrow => True
  | parts, loops, .always body => body.Scoped parts loops
  | parts, loops, .whenAny _ body otherwise =>
    body.Scoped parts loops ∧ otherwise.Scoped parts loops

end

/-- The labels of open parts are those given. -/
structure Names (parts loops : List Nat) (around : List String) : Prop where
  parts : ∀ label, partText label ∈ around ↔ label ∈ parts
  loops : ∀ label, loopText label ∈ around ↔ label ∈ loops

variable {labels loops : List Nat} {around : List String} {text : String}

theorem Names.nothing : Names [] [] [] := ⟨by simp, by simp⟩

theorem Names.unlabelled (names : Names labels loops around) (unlabelled : Unlabelled text) :
    Names labels loops (text :: around) where
  parts label := by simp [names.parts, (unlabelled label).1.symm]
  loops label := by simp [names.loops, (unlabelled label).2.symm]

theorem Names.part (names : Names labels loops around) (label : Nat) :
    Names (label :: labels) loops (partText label :: around) where
  parts other := by
    rw [List.mem_cons, List.mem_cons, names.parts]
    exact or_congr_left ⟨partText_inj, congrArg partText⟩
  loops other := by simp [names.loops, partText_ne_loopText.symm]

theorem Names.loop (names : Names labels loops around) (label : Nat) :
    Names labels (label :: loops) (loopText label :: around) where
  parts other := by simp [names.parts, partText_ne_loopText]
  loops other := by
    rw [List.mem_cons, List.mem_cons, names.loops]
    exact or_congr_left ⟨loopText_inj, congrArg loopText⟩

/-! ## The lines of nested code -/

theorem nests_stay (stays : Stays text) (rest : Nests around more last) :
    Nests around (.plain text :: more) last :=
  ⟨fun label => ⟨fun same => absurd same (stays label).1, fun same => absurd same (stays label).2⟩,
    rest⟩

theorem nests_opening (unlabelled : Unlabelled text) (rest : Nests (text :: around) more last) :
    Nests around (.opening text :: more) last :=
  ⟨fun label either => absurd either (not_or.mpr (unlabelled label)), rest⟩

theorem nests_reopening {part : String} (unlabelled : Unlabelled text)
    (rest : Nests (text :: around) more last) :
    Nests (part :: around) (.reopening text :: more) last :=
  ⟨fun label either => absurd either (not_or.mpr (unlabelled label)), rest⟩

theorem nests_closing (part : String) : Nests (part :: around) [.closing text] around := rfl

theorem nests_statements {statements : List Statement}
    (actions : ∀ statement ∈ statements, statement.IsAction) (around : List String) :
    Nests around (statementLines statements) around := by
  induction statements with
  | nil => rfl
  | cons statement rest ih =>
    obtain ⟨action, rest⟩ := List.forall_mem_cons.mp actions
    exact nests_stay action.stays (ih rest)

theorem stays_wrapCaught : Stays wrapCaught.text :=
  Statement.IsAction.stays (show wrapCaught.IsAction from trivial)

theorem stays_bindCaught : Stays bindCaught.text :=
  Statement.IsAction.stays (show bindCaught.IsAction from trivial)

theorem stays_throwCaught : Stays throwCaught.text :=
  stays_of_head? 't' (by decide) (by decide) (by decide)

theorem unlabelled_try : Unlabelled "try \x7b" :=
  unlabelled_of_head? 't' (by decide) (by decide) (by decide)

theorem unlabelled_catch : Unlabelled "\x7d catch ($e) \x7b" :=
  unlabelled_of_head? '}' (by decide) (by decide) (by decide)

theorem unlabelled_else : Unlabelled "\x7d else \x7b" :=
  unlabelled_of_head? '}' (by decide) (by decide) (by decide)

/-- A block whose exceptions are handled. -/
theorem nests_try {statements : List Statement} {handling : List Line}
    (actions : ∀ statement ∈ statements, statement.IsAction)
    (handled : ∀ text, Unlabelled text → Nests (text :: around) handling (text :: around)) :
    Nests around (.opening "try \x7b" :: statementLines statements
      ++ .reopening "\x7d catch ($e) \x7b" :: .plain wrapCaught.text :: handling
      ++ [.closing "\x7d"]) around := by
  refine Nests.append (nests_opening unlabelled_try ?_) (nests_closing "\x7d catch ($e) \x7b")
  refine (nests_statements actions _).append (nests_reopening unlabelled_catch ?_)
  exact nests_stay stays_wrapCaught (handled _ unlabelled_catch)

mutual

theorem nests_skeleton {labels loops : List Nat} {around : List String} :
    (skeleton : Skeleton) → Names labels loops around → skeleton.Scoped labels loops →
      Nests around skeleton.lines around
  | .nothing, _, _ => rfl
  | .block _ statements .rethrow, _, inScope => nests_statements inScope.1 around
  | .block _ statements (.always body), names, inScope =>
    nests_try inScope.1 fun _ unlabelled =>
      nests_firstLines (.always body) (names.unlabelled unlabelled) inScope.2
  | .block _ statements (.whenAny classes body otherwise), names, inScope =>
    nests_try inScope.1 fun _ unlabelled =>
      nests_firstLines (.whenAny classes body otherwise) (names.unlabelled unlabelled) inScope.2
  | .andThen first second, names, inScope =>
    (nests_skeleton first names inScope.1).append (nests_skeleton second names inScope.2)
  | .labelled label body, names, inScope => by
    refine Nests.append ⟨?_, ?_⟩ (nests_closing (partText label))
    · rintro other (same | same)
      · cases partText_inj same
        exact fun found => inScope.1 ((names.parts label).mp found)
      · exact absurd same partText_ne_loopText
    · exact nests_skeleton body (names.part label) inScope.2
  | .loop label body, names, inScope => by
    refine Nests.append ⟨?_, ?_⟩ (nests_closing (loopText label))
    · rintro other (same | same)
      · exact absurd same.symm partText_ne_loopText
      · cases loopText_inj same
        exact fun found => inScope.1 ((names.loops label).mp found)
    · exact nests_skeleton body (names.loop label) inScope.2
  | .breakTo label, names, inScope => by
    refine ⟨fun other => ⟨fun same => ?_, fun same => absurd same breakText_ne_continueText⟩, rfl⟩
    cases breakText_inj same
    exact (names.parts label).mpr inScope
  | .continueTo label, names, inScope => by
    refine ⟨fun other =>
      ⟨fun same => absurd same.symm breakText_ne_continueText, fun same => ?_⟩, rfl⟩
    cases continueText_inj same
    exact (names.loops label).mpr inScope
  | .dispatchTo label, _, _ =>
    nests_stay (stays_of_assignment (by simp)) rfl
  | .choose condition yes no, names, inScope => by
    have unlabelled := unlabelled_conditionText condition
    refine Nests.append (nests_opening unlabelled ?_) (nests_closing "\x7d else \x7b")
    refine (nests_skeleton yes (names.unlabelled unlabelled) inScope.1).append ?_
    refine nests_reopening unlabelled_else ?_
    exact nests_skeleton no (names.unlabelled unlabelled_else) inScope.2
  | .switch key cases, names, inScope => by
    have unlabelled := unlabelled_switchText key
    refine Nests.append (nests_opening unlabelled ?_)
      (nests_closing ("switch (" ++ key.name ++ ") \x7b"))
    exact nests_cases cases (names.unlabelled unlabelled) inScope
  | .leave (some value), _, _ =>
    nests_stay (stays_of_head? 'r' (by simp) (by decide) (by decide)) rfl
  | .leave none, _, _ =>
    nests_stay (stays_of_head? 'r' (by decide) (by decide) (by decide)) rfl

theorem nests_cases {labels loops : List Nat} {around : List String} :
    (cases : Cases) → Names labels loops around → cases.Scoped labels loops →
      Nests around cases.lines around
  | .nil, _, _ => rfl
  | .cons keys isDefault body rest, names, inScope => by
    have unlabelled := unlabelled_caseText keys isDefault
    refine nests_opening unlabelled ?_
    refine (nests_skeleton body (names.unlabelled unlabelled) inScope.1).append ?_
    exact nests_cases rest names inScope.2

theorem nests_firstLines {labels loops : List Nat} {around : List String} :
    (recovery : Recovery) → Names labels loops around → recovery.Scoped labels loops →
      Nests around recovery.firstLines around
  | .rethrow, _, _ => nests_stay stays_throwCaught rfl
  | .always body, names, inScope =>
    nests_stay stays_bindCaught (nests_skeleton body names inScope)
  | .whenAny classes body otherwise, names, inScope => by
    have unlabelled := unlabelled_conditionText (isCaught classes)
    refine nests_opening unlabelled (nests_stay stays_bindCaught ?_)
    refine (nests_skeleton body (names.unlabelled unlabelled) inScope.1).append ?_
    exact nests_laterLines otherwise names inScope.2

/-- The lines of a recovery inside of a condition end that condition. -/
theorem nests_laterLines {labels loops : List Nat} {around : List String} {part : String} :
    (recovery : Recovery) → Names labels loops around → recovery.Scoped labels loops →
      Nests (part :: around) recovery.laterLines around
  | .rethrow, _, _ =>
    nests_reopening unlabelled_else (nests_stay stays_throwCaught (nests_closing _))
  | .always body, names, inScope => by
    refine nests_reopening unlabelled_else (nests_stay stays_bindCaught ?_)
    exact (nests_skeleton body (names.unlabelled unlabelled_else) inScope).append (nests_closing _)
  | .whenAny classes body otherwise, names, inScope => by
    have unlabelled := unlabelled_elseText (isCaught classes)
    refine nests_reopening unlabelled (nests_stay stays_bindCaught ?_)
    refine (nests_skeleton body (names.unlabelled unlabelled) inScope.1).append ?_
    exact nests_laterLines otherwise names inScope.2

end

end Bytescript.Script
