import Bytescript.Flow.Graph

/-!
# The shape of a flow graph

What is needed to write a flow graph with nested loops and blocks: an order of the nodes in which
only some edges go back, the dominator tree, the nodes that loops return to, and the nodes where
several paths meet.

A node dominates another if every path from the entry to the other leads through it.  That is
computed as it is said: the other node can be reached, but not by a walk that may not enter the
first.  The entry is node zero, and nodes that cannot be reached have no part in any of this.
-/

set_option autoImplicit false

namespace Bytescript.Flow

/-- A graph with everything that is known about its shape.  The tables are computed once, by
`Analysis.of`. -/
structure Analysis where
  graph : Graph
  /-- The nodes that can be reached, in reverse postorder. -/
  order : List Nat
  /-- The position of each node in the order. -/
  numbers : Array (Option Nat)
  /-- For each node, the marks of a walk that may not enter it. -/
  avoiding : Array (Array Bool)
  /-- The immediate dominator of each node. -/
  immediate : Array (Option Nat)
  /-- How many forward edges lead to each node. -/
  forwardCounts : Array Nat
  /-- Whether a backward edge leads to each node. -/
  headers : Array Bool
  reducible : Bool

/-- The position of every node below `size` in an order. -/
def positions (size : Nat) (order : List Nat) : Array (Option Nat) :=
  order.zipIdx.foldl (fun table (node, position) => table.setIfInBounds node (some position))
    (Array.replicate size none)

/-- Whether an edge goes back in the order, or to its own source. -/
def goesBack (numbers : Array (Option Nat)) (source target : Nat) : Bool :=
  match numbers.getD source none, numbers.getD target none with
  | some source, some target => target ≤ source
  | _, _ => false

/-- Whether the first node dominates the second, by the tables of an analysis. -/
def dominatesBy (numbers : Array (Option Nat)) (avoiding : Array (Array Bool))
    (dominator node : Nat) : Bool :=
  (numbers.getD node none).isSome
    && (dominator = node || !((avoiding.getD dominator #[]).getD node true))

namespace Analysis

/-- Whether a node can be reached from the entry. -/
def isReachable (analysis : Analysis) (node : Nat) : Bool :=
  (analysis.numbers.getD node none).isSome

/-- The position of a node in the order, counting as zero for a node that is not in it. -/
def number (analysis : Analysis) (node : Nat) : Nat := (analysis.numbers.getD node none).getD 0

/-- Whether the edge between two nodes would go back in the order. -/
def isBackward (analysis : Analysis) (source target : Nat) : Bool :=
  goesBack analysis.numbers source target

/-- Whether every path from the entry to `node` leads through `dominator`. -/
def dominates (analysis : Analysis) (dominator node : Nat) : Bool :=
  dominatesBy analysis.numbers analysis.avoiding dominator node

/-- The last node before a node that dominates it. -/
def immediateDominator (analysis : Analysis) (node : Nat) : Option Nat :=
  analysis.immediate.getD node none

/-- The nodes that a node immediately dominates, in order. -/
def children (analysis : Analysis) (node : Nat) : List Nat :=
  analysis.order.filter fun child => analysis.immediateDominator child = some node

/-- Whether a backward edge leads to a node. -/
def isLoopHeader (analysis : Analysis) (node : Nat) : Bool := analysis.headers.getD node false

/-- Whether at least two forward edges lead to a node. -/
def isMerge (analysis : Analysis) (node : Nat) : Bool :=
  2 ≤ analysis.forwardCounts.getD node 0

/-- The nearest strict dominator: of all nodes before `node` that dominate it, the last one. -/
def nearestDominator (numbers : Array (Option Nat)) (avoiding : Array (Array Bool))
    (order : List Nat) (node : Nat) : Option Nat :=
  (order.filter fun other => other ≠ node && dominatesBy numbers avoiding other node).getLast?

/-- Computes the shape of a graph. -/
def of (graph : Graph) : Analysis :=
  let order := graph.reversePostorder
  let numbers := positions graph.size order
  let avoiding := (Array.range graph.size).map graph.marksAvoiding
  let edges := graph.edges.filter fun (source, _) => (numbers.getD source none).isSome
  let backward := edges.filter fun (source, target) => goesBack numbers source target
  let forward := edges.filter fun (source, target) => !goesBack numbers source target
  { graph
    order
    numbers
    avoiding
    immediate := (Array.range graph.size).map (nearestDominator numbers avoiding order)
    forwardCounts := (Array.range graph.size).map fun node =>
      forward.countP fun (_, target) => target = node
    headers := (Array.range graph.size).map fun node =>
      backward.any fun (_, target) => target = node
    reducible := backward.all fun (source, target) =>
      dominatesBy numbers avoiding target source }

end Analysis

end Bytescript.Flow
