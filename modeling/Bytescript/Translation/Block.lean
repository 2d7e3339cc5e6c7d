import Bytescript.Translation.Instruction

/-!
# Translating blocks

A block is translated from the stack it is entered with.  What is left on the stack at its end is
what the blocks after it are entered with, and a handler is entered with the exception alone.  So
the blocks are translated one after the other, beginning with the entry and an empty stack, and
every block is translated as soon as its stack is known.  Blocks that are entered with two
different stacks cannot be translated.
-/

set_option autoImplicit false

namespace Bytescript.Translation

open Bytescript.Flow Script

/-! ## One block -/

/-- Where an instruction of a block stands. -/
def Scope.site (scope : Scope) (block : Block) (placed : Placed) : Site :=
  { scope with offset := placed.offset, opcode := placed.opcode, next := block.stop }

/-- The statements of instructions in a row, and what the last one says about the exit. -/
def translateRun (scope : Scope) (block : Block) : List Placed → Simulation Effect
  | [] => pure (.plain [])
  | [last] => translate (scope.site block last) last.instruction
  | placed :: rest => do
    let first ← translate (scope.site block placed) placed.instruction
    let later ← translateRun scope block rest
    return ⟨first.statements ++ later.statements, later.exit⟩

/-- The code of a block that is entered with a stack, and the stack at its end.  Unless the last
instruction says otherwise, the next block follows. -/
def translateBlock (scope : Scope) (block : Block) (stack : Stack) :
    Except Failure (BlockCode × Stack) := do
  let (effect, stack) ← (translateRun scope block block.body).run stack
  return (⟨effect.statements, effect.exit.getD (.goto block.stop)⟩, stack)

/-! ## All blocks -/

/-- The stack that a handler is entered with. -/
def handlerStack : Stack := [.reference]

/-- What is known so far: the stacks that blocks are entered with, the blocks that wait to be
translated, the latest one first, and the code of those that are. -/
structure Progress where
  entries : Array (Option Stack)
  pending : List Nat
  codes : Array (Option BlockCode)

namespace Progress

/-- Only the entry is known, which has an empty stack. -/
def start (flow : ControlFlow) : Progress :=
  { entries := (Array.replicate flow.size none).setIfInBounds ControlFlow.entry (some [])
    pending := [ControlFlow.entry]
    codes := Array.replicate flow.size none }

/-- Records that a block is entered with a stack.  The first time, the block begins to wait. -/
def enter (flow : ControlFlow) (stack : Stack) (progress : Progress) (block : Nat) :
    Except Failure Progress :=
  match progress.entries.getD block none with
  | none =>
    .ok { progress with
      entries := progress.entries.setIfInBounds block (some stack)
      pending := block :: progress.pending }
  | some known =>
    if known = stack then .ok progress
    else
      malformed (flow.start block)
        ("the block is entered with the stacks " ++ shownStack known ++ " and "
          ++ shownStack stack)

/-- Records the code of a block. -/
def finish (block : Nat) (code : BlockCode) (progress : Progress) : Progress :=
  { progress with codes := progress.codes.setIfInBounds block (some code) }

/-- Translates a block, and records what its successors and handlers are entered with. -/
def visit (scope : Scope) (flow : ControlFlow) (block : Nat) (progress : Progress) :
    Except Failure Progress :=
  match flow.blocks[block]?, progress.entries.getD block none with
  | some content, some entry => do
    let (code, stack) ← translateBlock scope content entry
    let progress ← (flow.next block).foldlM (enter flow stack) progress
    let handlers := (flow.covering block).map Handler.target
    let progress ← handlers.foldlM (enter flow handlerStack) progress
    return progress.finish block code
  | _, _ => .ok progress

/-- Translates waiting blocks until there are none.  Every block waits at most once, so as many
steps as there are blocks are enough. -/
def run (scope : Scope) (flow : ControlFlow) : (fuel : Nat) → Progress → Except Failure Progress
  | 0, progress => .ok progress
  | fuel + 1, progress =>
    match progress.pending with
    | [] => .ok progress
    | block :: rest => do
      run scope flow fuel (← visit scope flow block { progress with pending := rest })

end Progress

/-- The code of all blocks that can be reached. -/
def translateBlocks (scope : Scope) (flow : ControlFlow) :
    Except Failure (Array (Option BlockCode)) :=
  (Progress.run scope flow flow.size (.start flow)).map Progress.codes

end Bytescript.Translation
