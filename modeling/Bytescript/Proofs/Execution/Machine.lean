import Bytescript.Proofs.Execution.Walk
import Mathlib.Logic.Relation

/-!
# Running the code of a method

The code of a method runs on a machine that keeps the parts of the script around the place where
it is as a stack of frames.  A part either completes normally, or by leaving a labelled part, going
on with a loop, returning or throwing, and then the innermost frame decides what happens next.
Nothing is left out of the rules of the script: a case of a switch runs on into the next one, a
loop begins again when its body completes, and a clause that catches exceptions runs on behind its
block.  Well-structured code never makes use of these, which is what `State.Proper` says.
-/

set_option autoImplicit false

namespace Bytescript.Execution

open Script

variable {Thrown : Type}

/-! ## States -/

/-- How a part of the script completes. -/
inductive Completion (Thrown : Type) where
  | normal
  /-- Leaves a labelled part. -/
  | breaks (label : Nat)
  /-- Goes on with a loop: the one with a label, or the innermost one. -/
  | continues (label : Option Nat)
  | leaves (value : Option Variable)
  | throws (exception : Thrown)

/-- A part of the script around the place where the machine is. -/
inductive Frame (Thrown : Type) where
  /-- What comes next. -/
  | next (skeleton : Skeleton)
  | labelled (label : Nat)
  | loop (label : Nat) (body : Skeleton)
  /-- A switch, with the cases behind the one that runs. -/
  | cases (behind : Cases)
  /-- The handling of an exception. -/
  | caught
  /-- The switch of a dispatch, with the blocks behind the one that runs. -/
  | blocks (behind : List (Nat × Skeleton))
  /-- The block around the switch of a dispatch whose exceptions are caught. -/
  | guarded (dispatch : Dispatch)
  /-- The loop of a dispatch. -/
  | forever (dispatch : Dispatch)
  /-- The test for the block of an exception, with the tests behind it. -/
  | recoveries (exception : Thrown) (behind : List (Nat × Recovery))
  /-- A test of the class of an exception, with the tests behind it. -/
  | tests (exception : Thrown) (behind : Recovery)

/-- What the machine does next. -/
inductive Focus (Thrown : Type) where
  | run (skeleton : Skeleton)
  | complete (how : Completion Thrown)
  /-- Handles an exception of a block inside of nested code. -/
  | recover (exception : Thrown) (recovery : Recovery)
  /-- Begins the loop of a dispatch, or begins it again. -/
  | iterate (dispatch : Dispatch)
  /-- Looks for the block of an exception that left the switch of a dispatch. -/
  | locate (exception : Thrown) (recoveries : List (Nat × Recovery))
  /-- Tests the class of an exception that left the switch of a dispatch. -/
  | test (exception : Thrown) (recovery : Recovery)

/-- A state of the machine. -/
structure State (Thrown : Type) where
  focus : Focus Thrown
  /-- The parts around, the innermost first. -/
  frames : List (Frame Thrown)
  /-- The variable that says which block of a dispatch is next. -/
  next : Nat
  history : History Thrown

namespace State

/-- How the method ended, if it did. -/
def ending (state : State Thrown) : Option (Ending Thrown) :=
  match state.focus, state.frames with
  | .complete .normal, [] => some (.returned none)
  | .complete (.leaves value), [] => some (.returned value)
  | .complete (.throws exception), [] => some (.threw exception)
  | _, _ => none

/-! ## Steps -/

section Steps

variable (oracle : Oracle Thrown) (state : State Thrown)

/-- Puts a frame around what the machine does next. -/
def push (frame : Frame Thrown) (focus : Focus Thrown) : State Thrown :=
  { state with focus, frames := frame :: state.frames }

/-- Gives an exception to a handler, which runs inside of a frame. -/
def bind (exception : Thrown) (frame : Frame Thrown) (body : Skeleton) : State Thrown :=
  { state with
    focus := .run body
    frames := frame :: state.frames
    history := .bind exception :: state.history }

end Steps

end State

/-- The body of a switch for keys that are not listed, and the cases behind it. -/
def selectDefault : Cases → Option (Skeleton × Cases)
  | .nil => none
  | .cons _ isDefault body rest => if isDefault then some (body, rest) else selectDefault rest

/-- The body of a switch for a key that is listed, and the cases behind it. -/
def selectListed (key : Int32) : Cases → Option (Skeleton × Cases)
  | .nil => none
  | .cons keys _ body rest => if key ∈ keys then some (body, rest) else selectListed key rest

/-- The body of a switch for a key, and the cases behind it: the first case that lists the key, or
else the default. -/
def selectCase (key : Int32) (cases : Cases) : Option (Skeleton × Cases) :=
  (selectListed key cases).or (selectDefault cases)

/-- The block with a label, and the blocks behind it. -/
def selectBlock (label : Nat) : List (Nat × Skeleton) → Option (Skeleton × List (Nat × Skeleton))
  | [] => none
  | (other, body) :: rest => if other = label then some (body, rest) else selectBlock label rest

namespace State

variable (oracle : Oracle Thrown) (state : State Thrown)

/-- Begins to run nested code. -/
def stepRun : Skeleton → State Thrown
  | .nothing => { state with focus := .complete .normal }
  | .block index statements recovery =>
    let history := .visit index :: state.history
    let focus := match oracle.outcome statements history with
      | some exception => .recover exception recovery
      | none => .complete .normal
    { state with focus, history }
  | .andThen first second => state.push (.next second) (.run first)
  | .labelled label body => state.push (.labelled label) (.run body)
  | .loop label body => state.push (.loop label body) (.run body)
  | .breakTo label => { state with focus := .complete (.breaks label) }
  | .continueTo label => { state with focus := .complete (.continues (some label)) }
  | .dispatchTo label => { state with focus := .complete (.continues none), next := label }
  | .choose condition yes no =>
    { state with focus := .run (if oracle.holds state.history condition then yes else no) }
  | .switch key cases =>
    match selectCase (oracle.value state.history key) cases with
    | some (body, behind) => state.push (.cases behind) (.run body)
    | none => { state with focus := .complete .normal }
  | .leave value => { state with focus := .complete (.leaves value) }

/-- Handles an exception of a block inside of nested code. -/
def stepRecover (exception : Thrown) : Recovery → State Thrown
  | .rethrow => { state with focus := .complete (.throws exception) }
  | .always body => state.bind exception .caught body
  | .whenAny classes body otherwise =>
    if classes.any (oracle.isInstance exception) then state.bind exception .caught body
    else { state with focus := .recover exception otherwise }

/-- Goes to the block of a dispatch that is next. -/
def stepIterate (dispatch : Dispatch) : State Thrown :=
  let around := .guarded dispatch :: .forever dispatch :: state.frames
  match selectBlock state.next dispatch.cases with
  | some (body, behind) => { state with focus := .run body, frames := .blocks behind :: around }
  | none => { state with focus := .complete .normal, frames := around }

/-- Looks for the block of an exception, which is the one that was next, and passes the exception
on if that has no handlers. -/
def stepLocate (exception : Thrown) : List (Nat × Recovery) → State Thrown
  | [] => { state with focus := .complete (.throws exception) }
  | (label, recovery) :: behind =>
    if state.next = label then
      state.push (.recoveries exception behind) (.test exception recovery)
    else { state with focus := .locate exception behind }

/-- Tests the class of an exception.  If none of the tests holds, execution goes on behind them. -/
def stepTest (exception : Thrown) : Recovery → State Thrown
  | .rethrow => { state with focus := .complete .normal }
  | .always body => state.bind exception (.tests exception .rethrow) body
  | .whenAny classes body otherwise =>
    if classes.any (oracle.isInstance exception) then
      state.bind exception (.tests exception otherwise) body
    else { state with focus := .test exception otherwise }

/-- Goes on behind a part that completed normally. -/
def stepNormal (frames : List (Frame Thrown)) : Frame Thrown → State Thrown
  | .next skeleton => { state with focus := .run skeleton, frames }
  | .labelled _ | .caught | .guarded _ | .cases .nil | .blocks [] => { state with frames }
  | .loop label body =>
    { state with focus := .run body, frames := .loop label body :: frames }
  | .cases (.cons _ _ body behind) =>
    { state with focus := .run body, frames := .cases behind :: frames }
  | .blocks ((_, body) :: behind) =>
    { state with focus := .run body, frames := .blocks behind :: frames }
  | .forever dispatch => { state with focus := .iterate dispatch, frames }
  | .recoveries exception behind => { state with focus := .locate exception behind, frames }
  | .tests exception behind => { state with focus := .test exception behind, frames }

/-- Completes a part inside of a frame. -/
def stepComplete (frame : Frame Thrown) (frames : List (Frame Thrown)) :
    Completion Thrown → State Thrown
  | .normal => state.stepNormal frames frame
  | .breaks label =>
    match frame with
    | .labelled other =>
      if other = label then { state with focus := .complete .normal, frames }
      else { state with frames }
    | _ => { state with frames }
  | .continues (some label) =>
    match frame with
    | .loop other body =>
      if other = label then { state with focus := .run body, frames := frame :: frames }
      else { state with frames }
    | _ => { state with frames }
  | .continues none =>
    match frame with
    | .loop _ body => { state with focus := .run body, frames := frame :: frames }
    | .forever dispatch => { state with focus := .iterate dispatch, frames }
    | _ => { state with frames }
  | .leaves _ => { state with frames }
  | .throws exception =>
    match frame with
    | .guarded dispatch => { state with focus := .locate exception dispatch.recoveries, frames }
    | _ => { state with frames }

/-- A step of the machine.  It stays where it is once there is nothing around any more. -/
def step : State Thrown :=
  match state.focus with
  | .run skeleton => state.stepRun oracle skeleton
  | .recover exception recovery => state.stepRecover oracle exception recovery
  | .iterate dispatch => state.stepIterate dispatch
  | .locate exception recoveries => state.stepLocate exception recoveries
  | .test exception recovery => state.stepTest oracle exception recovery
  | .complete how =>
    match state.frames with
    | [] => state
    | frame :: frames => state.stepComplete frame frames how

end State

/-! ## Running -/

/-- The state in which the code of a method begins. -/
def begin : Body → State Thrown
  | .structured skeleton => ⟨.run skeleton, [], 0, []⟩
  | .dispatched dispatch => ⟨.iterate dispatch, [], dispatch.entry, []⟩

/-- The state after a number of steps. -/
def runFor (oracle : Oracle Thrown) (body : Body) (count : Nat) : State Thrown :=
  (State.step oracle)^[count] (begin body)

namespace State

/-- Whether code that comes next is there for parts that complete normally: the exit behind the
statements of a block, what stands behind a labelled part, and the tests for other blocks behind
tests of which none held. -/
def goesOn : List (Frame Thrown) → Prop
  | .next _ :: _ | .recoveries _ _ :: _ => True
  | _ => False

/-- No part runs on into code that is not meant to come next, and a dispatch finds its block. -/
def Proper (state : State Thrown) : Prop :=
  match state.focus with
  | .complete .normal => goesOn state.frames
  | .iterate dispatch => ∃ found, selectBlock state.next dispatch.cases = some found
  | _ => True

end State

end Bytescript.Execution
