import Bytescript.Script.Skeleton
import Bytescript.Proofs.Translation.Instruction

/-!
# The texts of labels and jumps

Labels are numbers, and different numbers are written differently.  So a line that opens a labelled
part or a loop says which, and so does a line that leaves or continues one.  No other line reads
like one of these: other lines open with another word, and statements contain a sign of assignment
or the parentheses of a call.
-/

set_option autoImplicit false

namespace Bytescript.Script

/-- The line that opens a labelled part. -/
def partText (label : Nat) : String := "B" ++ toString label ++ ": \x7b"

/-- The line that opens a loop. -/
def loopText (label : Nat) : String := "L" ++ toString label ++ ": while (true) \x7b"

/-- The line that leaves a labelled part. -/
def breakText (label : Nat) : String := "break B" ++ toString label ++ ";"

/-- The line that continues a loop. -/
def continueText (label : Nat) : String := "continue L" ++ toString label ++ ";"

/-! ## Different labels -/

theorem toDigits_inj {one other : Nat} (same : Nat.toDigits 10 one = Nat.toDigits 10 other) :
    one = other := by
  rw [← Nat.ofDigitChars_ten_toDigits (n := one), same, Nat.ofDigitChars_ten_toDigits]

theorem toString_inj {one other : Nat} (same : toString one = toString other) : one = other := by
  rw [Nat.toString_eq_ofList_toDigits, Nat.toString_eq_ofList_toDigits] at same
  exact toDigits_inj (String.ofList_injective same)

/-- A number between the same texts is determined by the whole. -/
theorem between_inj {before after : String} {one other : Nat}
    (same : before ++ toString one ++ after = before ++ toString other ++ after) : one = other := by
  have characters := congrArg String.toList same
  simp only [String.toList_append, List.append_assoc, List.append_cancel_left_eq,
    List.append_cancel_right_eq] at characters
  exact toString_inj (String.toList_injective characters)

/-- The characters of a number between texts. -/
theorem mem_between {before after : String} {label : Nat} {symbol : Char}
    (member : symbol ∈ (before ++ toString label ++ after).toList) :
    symbol ∈ before.toList ∨ symbol.isDigit = true ∨ symbol ∈ after.toList := by
  simp only [String.toList_append, List.mem_append] at member
  rcases member with (front | digit) | back
  · exact .inl front
  · rw [Nat.toString_eq_ofList_toDigits, String.toList_ofList] at digit
    exact .inr (.inl (Nat.isDigit_of_mem_toDigits (by decide) (by decide) digit))
  · exact .inr (.inr back)

/-! ## Lines that open something -/

/-- The text opens neither a labelled part nor a loop. -/
def Unlabelled (text : String) : Prop :=
  ∀ label, text ≠ partText label ∧ text ≠ loopText label

theorem partText_inj {one other : Nat} (same : partText one = partText other) : one = other :=
  between_inj same

theorem loopText_inj {one other : Nat} (same : loopText one = loopText other) : one = other :=
  between_inj same

theorem head?_partText (label : Nat) : (partText label).toList.head? = some 'B' := by
  simp [partText]

theorem head?_loopText (label : Nat) : (loopText label).toList.head? = some 'L' := by
  simp [loopText]

theorem partText_ne_loopText {one other : Nat} : partText one ≠ loopText other := by
  intro same
  have heads := congrArg (fun text => text.toList.head?) same
  simp only [head?_partText, head?_loopText] at heads
  cases heads

/-- A line that begins with another letter than labels do. -/
theorem unlabelled_of_head? {text : String} (symbol : Char)
    (head : text.toList.head? = some symbol) (other : symbol ≠ 'B') (other' : symbol ≠ 'L') :
    Unlabelled text := by
  intro label
  constructor
  · rintro rfl
    exact other (Option.some.inj (head.symm.trans (head?_partText label)))
  · rintro rfl
    exact other' (Option.some.inj (head.symm.trans (head?_loopText label)))

theorem unlabelled_conditionText (condition : Expression) :
    Unlabelled (conditionText condition) :=
  unlabelled_of_head? 'i' (by simp [conditionText]) (by decide) (by decide)

theorem unlabelled_elseText (condition : Expression) :
    Unlabelled ("\x7d else " ++ conditionText condition) :=
  unlabelled_of_head? '}' (by simp) (by decide) (by decide)

theorem unlabelled_switchText (key : Variable) :
    Unlabelled ("switch (" ++ key.name ++ ") \x7b") :=
  unlabelled_of_head? 's' (by simp) (by decide) (by decide)

theorem head?_intercalate {separator first : String} {rest : List String} (symbol : Char)
    (head : first.toList.head? = some symbol) :
    (String.intercalate separator (first :: rest)).toList.head? = some symbol := by
  obtain ⟨more, same⟩ := List.head?_eq_some_iff.mp head
  cases rest with
  | nil => simpa using head
  | cons next others => simp [String.intercalate_cons_cons, same]

theorem unlabelled_caseText (keys : List Int32) (isDefault : Bool) :
    Unlabelled (caseText keys isDefault) := by
  rw [caseText]
  cases keys with
  | nil =>
    cases isDefault with
    | true => exact unlabelled_of_head? 'd' (by decide) (by decide) (by decide)
    | false => exact unlabelled_of_head? ' ' (by decide) (by decide) (by decide)
  | cons key rest =>
    have head (more : List String) : (String.intercalate " "
        (("case " ++ toString key.toInt ++ ":") :: more) ++ " \x7b").toList.head? = some 'c' := by
      rw [String.toList_append, List.head?_append, head?_intercalate 'c' (by simp)]
      rfl
    refine unlabelled_of_head? 'c' ?_ (by decide) (by decide)
    cases isDefault with
    | true => exact head _
    | false => exact head _

/-! ## Lines that jump -/

/-- The text neither leaves a labelled part nor continues a loop. -/
def Stays (text : String) : Prop :=
  ∀ label, text ≠ breakText label ∧ text ≠ continueText label

theorem breakText_inj {one other : Nat} (same : breakText one = breakText other) : one = other :=
  between_inj same

theorem continueText_inj {one other : Nat} (same : continueText one = continueText other) :
    one = other :=
  between_inj same

theorem breakText_ne_continueText {one other : Nat} : breakText one ≠ continueText other := by
  intro same
  have heads := congrArg (fun text => text.toList.head?) same
  simp [breakText, continueText] at heads

/-- Jumps are written without a sign that is no digit and does not occur in the words. -/
theorem stays_of_mem {text : String} {symbol : Char} (member : symbol ∈ text.toList)
    (other : symbol ∉ "break B".toList ∧ symbol ∉ "continue L".toList)
    (other' : symbol.isDigit = false ∧ symbol ∉ ";".toList) : Stays text := by
  intro label
  constructor
  · rintro rfl
    rcases mem_between member with front | digit | back
    · exact other.1 front
    · rw [other'.1] at digit
      cases digit
    · exact other'.2 back
  · rintro rfl
    rcases mem_between member with front | digit | back
    · exact other.2 front
    · rw [other'.1] at digit
      cases digit
    · exact other'.2 back

theorem stays_of_assignment {text : String} (member : '=' ∈ text.toList) : Stays text :=
  stays_of_mem member (by decide) (by decide)

theorem stays_of_call {text : String} (member : '(' ∈ text.toList) : Stays text :=
  stays_of_mem member (by decide) (by decide)

theorem Expression.IsCall.mem_text {expression : Expression} (call : expression.IsCall) :
    '(' ∈ expression.text.toList := by
  cases expression with
  | support | staticCall | methodCall | exactCall =>
    simp [Expression.text, Expression.parenthesized]
  | _ => exact call.elim

/-- Statements are no jumps. -/
theorem Statement.IsAction.stays {statement : Statement} (action : statement.IsAction) :
    Stays statement.text := by
  cases statement with
  | assign | store => exact stays_of_assignment (by simp [Statement.text])
  | evaluate expression =>
    exact stays_of_call (by simp [Statement.text, Expression.IsCall.mem_text action])
  | throw expression =>
    exact stays_of_call (by simp [Statement.text, Expression.IsCall.mem_text action])

/-- A line that begins with another letter than jumps do. -/
theorem stays_of_head? {text : String} (symbol : Char) (head : text.toList.head? = some symbol)
    (other : symbol ≠ 'b') (other' : symbol ≠ 'c') : Stays text := by
  intro label
  constructor
  · rintro rfl
    exact other (Option.some.inj (head.symm.trans (by simp [breakText])))
  · rintro rfl
    exact other' (Option.some.inj (head.symm.trans (by simp [continueText])))

end Bytescript.Script
