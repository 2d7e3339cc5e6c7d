import Bytescript.Script.Layout

/-!
# The lines of a text

What a script does depends on where its lines end, because a comment ends there.  Four characters
end a line of a script, and some of them may stand in the name of a class.  So the lines of a
finished text are not always those that were written: a piece that was written as one line is more
of them if it holds such a character.
-/

set_option autoImplicit false

namespace Bytescript.Script

/-- The characters of a list are looked at one by one, and not all characters that there are. -/
instance decidableForallMem (chars : List Char) (fits : Char → Prop) [DecidablePred fits] :
    Decidable (∀ char ∈ chars, fits char) :=
  List.decidableBAll fits chars

/-- Whether a character ends a line of a script. -/
def isLineEnd (char : Char) : Bool :=
  char = '\n' || char = '\r' || char = '\u2028' || char = '\u2029'

/-- The lines of a text, each without the character that ends it. -/
def textLines (text : String) : List String :=
  (text.toList.splitOnP isLineEnd).map String.ofList

/-- No line ends inside of a text. -/
def OneLine (text : String) : Prop := ∀ char ∈ text.toList, isLineEnd char = false

instance (text : String) : Decidable (OneLine text) :=
  inferInstanceAs (Decidable (∀ char ∈ text.toList, isLineEnd char = false))

/-- The lines of several texts. -/
def allTextLines (texts : List String) : List String := texts.flatMap textLines

variable {text more : String} {texts lines : List String}

/-! ## One line -/

theorem oneLine_append : OneLine (text ++ more) ↔ OneLine text ∧ OneLine more := by
  rw [OneLine, String.toList_append, List.forall_mem_append]
  exact Iff.rfl

/-- Characters of a kind that no end of a line belongs to. -/
theorem oneLine_of_all {fits : Char → Bool}
    (stops : ∀ stop ∈ ['\n', '\r', '\u2028', '\u2029'], fits stop = false)
    (all : ∀ char ∈ text.toList, fits char = true) : OneLine text := by
  refine fun char member => Bool.eq_false_iff.mpr fun ends => ?_
  have listed : char ∈ ['\n', '\r', '\u2028', '\u2029'] := by
    simpa [isLineEnd, or_assoc] using ends
  cases (all char member).symm.trans (stops char listed)

theorem oneLine_indent (depth : Nat) : OneLine (Line.indent depth text) ↔ OneLine text := by
  have tabs : OneLine (String.ofList (List.replicate depth '\t')) := by
    intro char member
    rw [String.toList_ofList] at member
    exact List.eq_of_mem_replicate member ▸ rfl
  rw [Line.indent, oneLine_append, and_iff_right tabs]

theorem textLines_of_oneLine (one : OneLine text) : textLines text = [text] := by
  rw [textLines, List.splitOnP_eq_singleton one, List.map_singleton, String.ofList_toList]

theorem allTextLines_of_oneLine (one : ∀ text ∈ texts, OneLine text) :
    allTextLines texts = texts := by
  induction texts with
  | nil => rfl
  | cons text rest ih =>
    obtain ⟨here, later⟩ := List.forall_mem_cons.mp one
    rw [allTextLines, List.flatMap_cons, textLines_of_oneLine here, ← allTextLines, ih later,
      List.singleton_append]

/-! ## Several lines -/

theorem exists_textLines_eq_cons (text : String) :
    ∃ first rest, textLines text = first :: rest := by
  refine List.exists_cons_of_ne_nil ?_
  rw [textLines, Ne, List.map_eq_nil_iff]
  exact List.splitOnP_ne_nil _ _

/-- Only a text in which no line ends has a single line. -/
theorem oneLine_of_textLines_eq {line : String} (single : textLines text = [line]) :
    OneLine text := by
  refine fun char member => Bool.eq_false_iff.mpr fun ends => ?_
  obtain ⟨front, back, split⟩ := List.append_of_mem member
  obtain ⟨first, rest, start⟩ := List.exists_cons_of_ne_nil (List.splitOnP_ne_nil isLineEnd front)
  obtain ⟨next, others, behind⟩ := List.exists_cons_of_ne_nil (List.splitOnP_ne_nil isLineEnd back)
  rw [textLines, split, List.splitOnP_append_cons _ _ ends, start,
    behind] at single
  simp at single

/-- What stands in front of a text belongs to its first line. -/
theorem textLines_append (one : OneLine text) (more : String) :
    textLines (text ++ more) = (textLines more).modifyHead (text ++ ·) := by
  have split (chars : List Char) (one : ∀ char ∈ chars, isLineEnd char = false) :
      (chars ++ more.toList).splitOnP isLineEnd =
        (more.toList.splitOnP isLineEnd).modifyHead (chars ++ ·) := by
    induction chars with
    | nil => exact (congrFun List.modifyHead_id _).symm
    | cons char rest ih =>
      obtain ⟨here, later⟩ := List.forall_mem_cons.mp one
      rw [List.cons_append, List.splitOnP_cons_eq_if_modifyHead, here, ih later,
        if_neg Bool.false_ne_true, List.modifyHead_modifyHead]
      rfl
  rw [textLines, textLines, String.toList_append, split text.toList one]
  cases more.toList.splitOnP isLineEnd with
  | nil => rfl
  | cons first rest => simp [String.ofList_append]

theorem textLines_newline (text more : String) :
    textLines (text ++ "\n" ++ more) = textLines text ++ textLines more := by
  have split := List.splitOnP_append_cons text.toList more.toList
    (show isLineEnd '\n' = true from rfl)
  have characters : (text ++ "\n" ++ more).toList = text.toList ++ '\n' :: more.toList := by
    simp
  rw [textLines, characters, split, List.map_append, textLines, textLines]

/-- The lines of a finished text are those of the pieces that were written as lines. -/
theorem textLines_unlines (pieces : List String) :
    textLines (unlines pieces) = allTextLines pieces ++ [""] := by
  induction pieces with
  | nil => rfl
  | cons piece rest ih =>
    have joined : unlines (piece :: rest) = piece ++ "\n" ++ unlines rest := by
      rw [unlines, List.map_cons, String.join_cons]
      rfl
    rw [joined, textLines_newline, ih, allTextLines, allTextLines, List.flatMap_cons,
      List.append_assoc]

end Bytescript.Script
