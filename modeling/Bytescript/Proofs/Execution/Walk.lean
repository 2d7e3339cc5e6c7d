import Bytescript.Translation.Structure
import Mathlib.Data.List.Nodup
import Mathlib.Logic.Function.Iterate

/-!
# Walks through a flow

What the statements of a block do is left to an oracle: each time that a block is visited, it says
whether the statements complete or which exception they throw, and it decides conditions, keys and
tests of classes.  It may answer by everything that has happened before.  With such an oracle the
flow of a method is walked from block to block, which is what the method is meant to do.
-/

set_option autoImplicit false

namespace Bytescript.Execution

open Bytescript.Flow Script Translation

/-! ## Oracles -/

/-- What happens while a method runs: a block is visited, or a handler is given an exception. -/
inductive Event (Thrown : Type) where
  | visit (block : Nat)
  | bind (exception : Thrown)

/-- Everything that has happened, the latest first. -/
abbrev History (Thrown : Type) : Type := List (Event Thrown)

/-- Decides what is not part of the control flow. -/
structure Oracle (Thrown : Type) where
  /-- The exception that the statements of the block visited last throw on their way, if any. -/
  failure : History Thrown → Option Thrown
  /-- The exception that a statement throws if it does nothing else. -/
  thrown : History Thrown → Thrown
  holds : History Thrown → Expression → Bool
  value : History Thrown → Variable → Int32
  isInstance : Thrown → ClassName → Bool

/-- How a method ends. -/
inductive Ending (Thrown : Type) where
  | returned (value : Option Variable)
  | threw (exception : Thrown)

variable {Thrown : Type}

/-- The exception that statements throw, if they do not complete.  They never complete if the last
one throws. -/
def Oracle.outcome (oracle : Oracle Thrown) (statements : List Statement)
    (history : History Thrown) : Option Thrown :=
  match oracle.failure history, statements.getLast? with
  | some exception, _ => some exception
  | none, some (.throw _) => some (oracle.thrown history)
  | none, _ => none

theorem Oracle.outcome_of_throw (oracle : Oracle Thrown) {statements : List Statement}
    {exception : Expression} (last : statements.getLast? = some (.throw exception))
    (history : History Thrown) : oracle.outcome statements history ≠ none := by
  rw [outcome, last]
  cases oracle.failure history <;> simp

/-- Whether a handler catches an exception. -/
def Oracle.catches (oracle : Oracle Thrown) (exception : Thrown) (handler : Handler) : Bool :=
  match handler.catchType with
  | none => true
  | some name => oracle.isInstance exception name

/-! ## Walks -/

/-- Where a walk is.  It is lost if there is no code to go on with. -/
inductive Position (Thrown : Type) where
  | inside (block : Nat)
  | ended (ending : Ending Thrown)
  | lost

/-- How the method ended, if it did. -/
def Position.ending : Position Thrown → Option (Ending Thrown)
  | inside _ | lost => none
  | ended ending => some ending

/-- A walk so far. -/
structure Walk (Thrown : Type) where
  position : Position Thrown
  history : History Thrown

/-- The target of a switch for a key.  Of several targets that are listed with the key, which
valid code does not have, it is the one that the switch names first. -/
def switchTarget (cases : List (Int32 × Nat)) (default : Nat) (key : Int32) : Nat :=
  ((cases.find? fun (_, target) => (key, target) ∈ cases).map Prod.snd).getD default

/-- A key that is listed once leads to the target that it is listed with. -/
theorem switchTarget_of_mem {cases : List (Int32 × Nat)} {default : Nat} {key : Int32}
    {target : Nat} (distinct : (cases.map Prod.fst).Nodup) (listed : (key, target) ∈ cases) :
    switchTarget cases default key = target := by
  rw [switchTarget]
  cases found : cases.find? fun (_, target) => (key, target) ∈ cases with
  | none => exact absurd (decide_eq_true listed) (List.find?_eq_none.mp found _ listed)
  | some other =>
    have same : (key, other.2) ∈ cases := by simpa using List.find?_some found
    exact congrArg Prod.snd (List.inj_on_of_nodup_map distinct same listed rfl)

/-- A key that is not listed leads to the default. -/
theorem switchTarget_of_not_mem {cases : List (Int32 × Nat)} {default : Nat} {key : Int32}
    (missing : key ∉ cases.map Prod.fst) : switchTarget cases default key = default := by
  rw [switchTarget, List.find?_eq_none.mpr]
  · rfl
  · intro other _ listed
    exact missing (List.mem_map_of_mem (f := Prod.fst) (of_decide_eq_true listed))

section Steps

variable (flow : ControlFlow) (codes : Codes) (oracle : Oracle Thrown)

/-- Goes on at an offset. -/
def arriveAt (offset : Nat) : Position Thrown :=
  match blockAt? flow.blocks offset with
  | some block => .inside block
  | none => .lost

/-- Where a walk goes after the statements of a block. -/
def afterExit (history : History Thrown) : Exit → Position Thrown
  | .goto target => arriveAt flow target
  | .branch condition target otherwise =>
    arriveAt flow (if oracle.holds history condition then target else otherwise)
  | .switch key cases default =>
    arriveAt flow (switchTarget cases default (oracle.value history key))
  | .leave value => .ended (.returned value)
  | .throw => .lost

/-- Where a walk goes after an exception in a block: to the first handler that catches it. -/
def afterFailure (block : Nat) (exception : Thrown) (history : History Thrown) : Walk Thrown :=
  match (flow.covering block).find? (oracle.catches exception) with
  | some handler => ⟨.inside handler.target, .bind exception :: history⟩
  | none => ⟨.ended (.threw exception), history⟩

/-- Visits a block. -/
def visitBlock (block : Nat) (history : History Thrown) : Walk Thrown :=
  match codes.getD block none with
  | none => ⟨.lost, history⟩
  | some code =>
    let history := .visit block :: history
    match oracle.outcome code.statements history with
    | some exception => afterFailure flow oracle block exception history
    | none => ⟨afterExit flow oracle history code.exit, history⟩

/-- Goes on by one block, unless the walk has ended. -/
def Walk.step (walk : Walk Thrown) : Walk Thrown :=
  match walk.position with
  | .inside block => visitBlock flow codes oracle block walk.history
  | .ended _ | .lost => walk

/-- The walk from the entry, after a number of blocks. -/
def walkFor (count : Nat) : Walk Thrown :=
  (Walk.step flow codes oracle)^[count] ⟨.inside ControlFlow.entry, []⟩

end Steps

end Bytescript.Execution
