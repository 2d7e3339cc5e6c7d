import Bytescript.Flow.Analysis
import Bytescript.Flow.Block

/-!
# The control flow of a method

The blocks of a method with the edges between them.  A block goes on to the targets of its last
instruction and to the block after it, if that instruction can fall through; by an exception it
goes on to the handlers that cover it, which are tried in the order of the exception table.

Building the graph fails if a branch or a boundary of the exception table points into the middle
of an instruction, or if execution could run off the end of the code.
-/

set_option autoImplicit false

namespace Bytescript.Flow

/-- A handler of exceptions: the class it catches, if not all, and its block. -/
structure Handler where
  catchType : Option ClassName
  target : Nat
  deriving DecidableEq

/-- The blocks of a method, their edges, and the shape of the graph they form. -/
structure ControlFlow where
  /-- The blocks, in the order of their offsets. -/
  blocks : Array Block
  /-- Where each block may go on, exceptions apart, without repetitions. -/
  successors : Array (List Nat)
  /-- The handlers that cover each block, in the order they are tried. -/
  handlers : Array (List Handler)
  shape : Analysis

/-- Fails because of malformed control flow. -/
def malformed {α : Type} (offset : Nat) (reason : String) : Except Failure α :=
  failCompile (.malformedControlFlow offset reason)

/-- Fails unless an instruction starts at an offset. -/
def checkStart (instructions : List Placed) (offset site : Nat) (what : String) :
    Except Failure Unit :=
  if instructions.any fun placed => placed.offset = offset then .ok ()
  else malformed site (what ++ s!" {offset} is not the start of an instruction")

/-- Checks the branch targets of all instructions. -/
def checkTargets (instructions : List Placed) : Except Failure Unit :=
  instructions.forM fun placed =>
    placed.instruction.branchTargets.forM fun target =>
      checkStart instructions target placed.offset "branch target"

/-- Checks the boundaries of an entry of the exception table. -/
def checkEntry (instructions : List Placed) (codeEnd : Nat) (entry : ExceptionEntry) :
    Except Failure Unit := do
  checkStart instructions entry.start entry.start "start of exception range"
  if entry.stop < codeEnd then
    checkStart instructions entry.stop entry.stop "end of exception range"
  checkStart instructions entry.handler entry.handler "exception handler"

/-- The index of the block that starts at an offset. -/
def blockAt? (blocks : Array Block) (offset : Nat) : Option Nat :=
  blocks.findIdx? fun block => block.start = offset

/-- The index of the block that starts at an offset, or a failure. -/
def blockAt (blocks : Array Block) (offset : Nat) : Except Failure Nat :=
  match blockAt? blocks offset with
  | some index => .ok index
  | none => malformed offset "no block starts here"

/-- Where a block may go on, exceptions apart. -/
def successorsOf (blocks : Array Block) (count : Nat) (block : Block) :
    Except Failure (List Nat) := do
  match block.body.getLast? with
  | none => return []
  | some last =>
    let targets ← last.instruction.branchTargets.mapM (blockAt blocks)
    if last.instruction.fallsThrough then
      if block.last = count then malformed last.offset "execution falls off the end of the code"
      else return (targets ++ [← blockAt blocks block.stop]).eraseDups
    else return targets.eraseDups

/-- The handlers that cover a block. -/
def handlersOf (blocks : Array Block) (table : List ExceptionEntry) (block : Block) :
    Except Failure (List Handler) :=
  (table.filter fun entry => entry.covers block.start).mapM fun entry => do
    return ⟨entry.catchType, ← blockAt blocks entry.handler⟩

/-- Both kinds of edges of each block: the successors first, and then the handlers. -/
def edgesOf (successors : List Nat) (handlers : List Handler) : List Nat :=
  successors ++ (handlers.map Handler.target).eraseDups

/-- The edges of a block of either kind. -/
def blockEdges (blocks : Array Block) (count : Nat) (table : List ExceptionEntry)
    (block : Block) : Except Failure (List Nat × List Handler) := do
  let successors ← successorsOf blocks count block
  let handlers ← handlersOf blocks table block
  return (successors, handlers)

namespace ControlFlow

/-- The flow of instructions under an exception table.  Entries that cover nothing are left out,
and the length of the code is where the last block ends. -/
def build (instructions : List Placed) (exceptionTable : List ExceptionEntry)
    (codeLength : Nat) : Except Failure ControlFlow := do
  if instructions.isEmpty then malformed 0 "there are no instructions"
  else if 0xffff < codeLength then malformed 0 s!"code length {codeLength} is too large"
  else
    checkTargets instructions
    let table := exceptionTable.filter fun entry => entry.start < entry.stop
    table.forM (checkEntry instructions codeLength)
    let blocks := (cut codeLength (leaders codeLength instructions table) instructions).toArray
    let edges ← blocks.toList.mapM (blockEdges blocks instructions.length table)
    let graph : Graph :=
      ⟨(edges.map fun (successors, handlers) => edgesOf successors handlers).toArray⟩
    return { blocks
             successors := (edges.map Prod.fst).toArray
             handlers := (edges.map Prod.snd).toArray
             shape := .of graph }

/-- The block at which a method starts. -/
def entry : Nat := 0

/-- How many blocks there are. -/
def size (flow : ControlFlow) : Nat := flow.blocks.size

/-- The offset at which a block starts. -/
def start (flow : ControlFlow) (block : Nat) : Nat := (flow.blocks.getD block default).start

/-- Where a block may go on, exceptions apart. -/
def next (flow : ControlFlow) (block : Nat) : List Nat := flow.successors.getD block []

/-- The handlers that cover a block. -/
def covering (flow : ControlFlow) (block : Nat) : List Handler := flow.handlers.getD block []

end ControlFlow

end Bytescript.Flow
