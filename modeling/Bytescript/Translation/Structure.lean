import Bytescript.Flow.ControlFlow
import Bytescript.Script.Skeleton

/-!
# Putting blocks together

The flow graph of a method says where each block goes on; here its blocks become one piece of
code.  In a reducible graph every backward edge leads to a block that dominates its source, so
loops and labelled parts along the dominator tree express all of it:

* a block that a backward edge leads to stands at the top of a loop, and backward edges continue
  that loop;
* a block with several forward edges stands after a labelled part around the block that
  immediately dominates it, and forward edges leave that part;
* any other block stands where the only edge to it starts.

Other graphs are written as a dispatch, where every edge just names the next block.
-/

set_option autoImplicit false

namespace Bytescript.Translation

open Bytescript.Flow Script

/-! ## Handlers -/

/-- Handlers in a row with the same target: the classes that they catch, unless that is
everything. -/
structure HandlerGroup where
  target : Nat
  classes : Option (List ClassName)
  deriving DecidableEq

namespace HandlerGroup

/-- The group of a single handler. -/
def ofHandler (handler : Handler) : HandlerGroup :=
  ⟨handler.target, handler.catchType.map ([·])⟩

/-- Puts a handler in front of a group with the same target. -/
def add (handler : Handler) (group : HandlerGroup) : HandlerGroup :=
  ⟨group.target,
    match handler.catchType, group.classes with
    | some name, some names => some (name :: names)
    | _, _ => none⟩

/-- Merges neighbouring handlers with the same target. -/
def ofHandlers : List Handler → List HandlerGroup
  | [] => []
  | handler :: rest =>
    match ofHandlers rest with
    | [] => [ofHandler handler]
    | group :: groups =>
      if group.target = handler.target then group.add handler :: groups
      else ofHandler handler :: group :: groups

end HandlerGroup

/-! ## Parts that both forms share -/

/-- How code goes on with another block. -/
abbrev Jump : Type := Nat → Except Failure Skeleton

/-- Tries groups of handlers in order.  Nothing is left for groups after one that catches
everything. -/
def recoveryOf (jump : Jump) : List HandlerGroup → Except Failure Recovery
  | [] => .ok .rethrow
  | ⟨target, none⟩ :: _ => do return .always (← jump target)
  | ⟨target, some classes⟩ :: rest => do
    let body ← jump target
    return .whenAny classes body (← recoveryOf jump rest)

/-- A group of cases of a switch that lead to the same block. -/
structure CaseGroup where
  target : Nat
  keys : List Int32
  isDefault : Bool
  deriving DecidableEq

namespace CaseGroup

/-- Adds a case to the group of its target, or to a new group at the end. -/
def insert (key : Int32) (target : Nat) : List CaseGroup → List CaseGroup
  | [] => [⟨target, [key], false⟩]
  | group :: rest =>
    if group.target = target then { group with keys := group.keys ++ [key] } :: rest
    else group :: insert key target rest

/-- Marks the group of a target as the default, or adds a new group at the end. -/
def insertDefault (target : Nat) : List CaseGroup → List CaseGroup
  | [] => [⟨target, [], true⟩]
  | group :: rest =>
    if group.target = target then { group with isDefault := true } :: rest
    else group :: insertDefault target rest

/-- Groups the cases of a switch by their targets, in the order in which these first occur. -/
def ofCases (cases : List (Int32 × Nat)) (default : Nat) : List CaseGroup :=
  insertDefault default
    (cases.foldl (fun groups (key, target) => insert key target groups) [])

end CaseGroup

/-- The code of groups of cases. -/
def casesOf (jump : Jump) : List CaseGroup → Except Failure Cases
  | [] => .ok .nil
  | group :: rest => do
    let body ← jump group.target
    return .cons group.keys group.isDefault body (← casesOf jump rest)

/-- The block that starts at an offset. -/
def blockStarting (flow : ControlFlow) (offset : Nat) : Except Failure Nat :=
  blockAt flow.blocks offset

/-- The code after the statements of a block. -/
def exitSkeleton (flow : ControlFlow) (jump : Jump) : Exit → Except Failure Skeleton
  | .goto target => do jump (← blockStarting flow target)
  | .branch condition target otherwise => do
    let target ← blockStarting flow target
    let otherwise ← blockStarting flow otherwise
    if target = otherwise then jump target
    else
      let yes ← jump target
      return .choose condition yes (← jump otherwise)
  | .switch key cases default => do
    let cases ← cases.mapM fun (value, target) => do
      return (value, ← blockStarting flow target)
    let default ← blockStarting flow default
    return .switch key (← casesOf jump (CaseGroup.ofCases cases default))
  | .leave value => .ok (.leave value)
  | .throw => .ok .nothing

/-- The code of the blocks that were translated. -/
abbrev Codes : Type := Array (Option BlockCode)

/-- The code of a block. -/
def codeOf (flow : ControlFlow) (codes : Codes) (block : Nat) : Except Failure BlockCode :=
  match codes.getD block none with
  | some code => .ok code
  | none => malformed (flow.start block) "block was never translated"

/-! ## Nested code -/

/-- A block and how it goes on, with the handlers that cover it around its statements. -/
def guardedBlock (flow : ControlFlow) (codes : Codes) (jump : Jump) (block : Nat) :
    Except Failure Skeleton := do
  let code ← codeOf flow codes block
  let recovery ← recoveryOf jump (HandlerGroup.ofHandlers (flow.covering block))
  return .andThen (.block block code.statements recovery) (← exitSkeleton flow jump code.exit)

/-- How code in a block goes on with another block, given the code of a block that stands where
the only edge to it starts. -/
def jumpFrom (flow : ControlFlow) (inline : Jump) (block : Nat) : Jump := fun target =>
  if flow.shape.isBackward block target then .ok (.continueTo (flow.start target))
  else if flow.shape.isMerge target then .ok (.breakTo (flow.start target))
  else inline target

/-- Puts the blocks where several edges meet after labelled parts, each around everything before
it. -/
def withMerges (flow : ControlFlow) (inline : Jump) :
    Skeleton → List Nat → Except Failure Skeleton
  | body, [] => .ok body
  | body, merge :: rest => do
    let after ← inline merge
    withMerges flow inline (.andThen (.labelled (flow.start merge) body) after) rest

/-- The code of a block and of everything that it dominates.  Each step down goes forward in the
order of the graph, so as many steps as there are blocks are enough. -/
def treeOf (flow : ControlFlow) (codes : Codes) : (fuel : Nat) → Jump
  | 0, block => malformed (flow.start block) "block was never translated"
  | fuel + 1, block => do
    let inline := treeOf flow codes fuel
    let body ← guardedBlock flow codes (jumpFrom flow inline block) block
    let merges := (flow.shape.children block).filter flow.shape.isMerge
    let body ← withMerges flow inline body merges
    return if flow.shape.isLoopHeader block then .loop (flow.start block) body else body

/-- All blocks as nested code. -/
def structuredCode (flow : ControlFlow) (codes : Codes) : Except Failure Skeleton :=
  treeOf flow codes flow.size ControlFlow.entry

/-! ## Blocks side by side -/

/-- Goes on with another case. -/
def dispatchJump (flow : ControlFlow) : Jump := fun target =>
  .ok (.dispatchTo (flow.start target))

/-- A block as a case.  Its exceptions are handled outside of the switch. -/
def dispatchCase (flow : ControlFlow) (codes : Codes) (block : Nat) :
    Except Failure (Nat × Skeleton) := do
  let code ← codeOf flow codes block
  let exit ← exitSkeleton flow (dispatchJump flow) code.exit
  return (flow.start block, .andThen (.block block code.statements .rethrow) exit)

/-- The handlers of a block, for the outside of the switch. -/
def dispatchRecovery (flow : ControlFlow) (block : Nat) :
    Except Failure (Nat × Recovery) := do
  let groups := HandlerGroup.ofHandlers (flow.covering block)
  return (flow.start block, ← recoveryOf (dispatchJump flow) groups)

/-- The blocks that can be reached, in the order of their offsets. -/
def reachableBlocks (flow : ControlFlow) : List Nat :=
  (List.range flow.size).filter flow.shape.isReachable

/-- All blocks as the cases of a dispatch. -/
def dispatchedCode (flow : ControlFlow) (codes : Codes) : Except Failure Dispatch := do
  let blocks := reachableBlocks flow
  let cases ← blocks.mapM (dispatchCase flow codes)
  let guarded := blocks.filter fun block => !(flow.covering block).isEmpty
  return ⟨flow.start ControlFlow.entry, cases, ← guarded.mapM (dispatchRecovery flow)⟩

/-- The blocks of a method as one piece of code. -/
def bodyOf (flow : ControlFlow) (codes : Codes) : Except Failure Body := do
  if flow.shape.reducible then return .structured (← structuredCode flow codes)
  else return .dispatched (← dispatchedCode flow codes)

end Bytescript.Translation
