import Bytescript.ClassFile.Basic

/-!
# Basic blocks

A block is a run of instructions that is entered at the top only and, exceptions apart, left at
the bottom only.  Blocks are cut at leaders: the first instruction, every target of a branch,
what follows a branch or an end of the method, and the boundaries and handlers of the exception
table.
-/

set_option autoImplicit false

namespace Bytescript.Flow

/-- A run of instructions: its offsets from `start` up to but not including `stop`, and the index
of its first instruction in the method. -/
structure Block where
  start : Nat
  stop : Nat
  first : Nat
  body : List Placed
  deriving DecidableEq

instance : Inhabited Block := ⟨⟨0, 0, 0, []⟩⟩

/-- The index after the last instruction of a block. -/
def Block.last (block : Block) : Nat := block.first + block.body.length

/-- Whether an instruction ends a block. -/
def endsBlock (instruction : Instruction) : Bool :=
  !instruction.branchTargets.isEmpty || !instruction.fallsThrough

/-- The offsets right after instructions that end a block. -/
def followers : List Placed → List Nat
  | placed :: next :: rest =>
    if endsBlock placed.instruction then next.offset :: followers (next :: rest)
    else followers (next :: rest)
  | _ => []

/-- The offsets at which an exception table needs a block to begin. -/
def boundaries (codeEnd : Nat) (entry : ExceptionEntry) : List Nat :=
  if entry.stop < codeEnd then [entry.start, entry.stop, entry.handler]
  else [entry.start, entry.handler]

/-- The offsets at which blocks begin, apart from the very first. -/
def leaders (codeEnd : Nat) (instructions : List Placed) (table : List ExceptionEntry) :
    List Nat :=
  instructions.flatMap (fun placed => placed.instruction.branchTargets)
    ++ followers instructions ++ table.flatMap (boundaries codeEnd)

/-- The offset of the first instruction of a run. -/
def startOf (run : List Placed) : Nat := (run.head?.map Placed.offset).getD 0

/-- Makes blocks of consecutive runs of instructions.  A block ends where the next one starts,
and the last one at the end of the code. -/
def blocksOfRuns (codeEnd : Nat) : (first : Nat) → List (List Placed) → List Block
  | _, [] => []
  | first, [run] => [⟨startOf run, codeEnd, first, run⟩]
  | first, run :: next :: rest =>
    ⟨startOf run, startOf next, first, run⟩
      :: blocksOfRuns codeEnd (first + run.length) (next :: rest)

/-- Cuts instructions into blocks at the given leaders. -/
def cut (codeEnd : Nat) (leaders : List Nat) (instructions : List Placed) : List Block :=
  blocksOfRuns codeEnd 0
    (instructions.splitBy fun _ next => !leaders.contains next.offset)

end Bytescript.Flow
