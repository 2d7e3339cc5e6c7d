/-!
# Directed graphs and depth first walks

The nodes of a graph are the numbers below its size, and every node lists its successors in the
order of its edges; an edge may occur more than once.  A depth first walk from a node takes the
successors in that order and lists a node when everything below it is done.  The latest node to
be done stands first in the list, so a finished walk gives a reverse postorder.

A walk may start with some nodes marked already.  Those are never entered, which answers what
can still be reached without them.
-/

set_option autoImplicit false

namespace Bytescript.Flow

/-- A graph by the successors of its nodes. -/
structure Graph where
  successors : Array (List Nat)

namespace Graph

/-- The number of nodes. -/
def size (graph : Graph) : Nat := graph.successors.size

/-- The successors of a node, in the order of its edges. -/
def next (graph : Graph) (node : Nat) : List Nat := graph.successors.getD node []

/-- All edges, by their source and then in order. -/
def edges (graph : Graph) : List (Nat × Nat) :=
  (List.range graph.size).flatMap fun source => (graph.next source).map fun target =>
    (source, target)

/-- A walk so far: the nodes that were entered or marked, and the nodes that are done. -/
structure Walk where
  marked : Array Bool
  done : List Nat

/-- Whether a node may not be entered any more.  There are no nodes beyond the marks. -/
def Walk.isMarked (walk : Walk) (node : Nat) : Bool := walk.marked.getD node true

/-- Marks a node. -/
def Walk.mark (walk : Walk) (node : Nat) : Walk :=
  { walk with marked := walk.marked.setIfInBounds node true }

/-- Puts a node in front of the nodes that are done. -/
def Walk.finish (walk : Walk) (node : Nat) : Walk := { walk with done := node :: walk.done }

/-- A walk that has not entered anything. -/
def Walk.fresh (graph : Graph) : Walk := ⟨Array.replicate graph.size false, []⟩

/-- Walks on from a node.  The steps down never outnumber the nodes, since each one marks a node
that was not marked before. -/
def walkFrom (graph : Graph) : (fuel : Nat) → Walk → Nat → Walk
  | 0, walk, _ => walk
  | fuel + 1, walk, node =>
    if walk.isMarked node then walk
    else
      ((graph.next node).foldl (fun walk child => graph.walkFrom fuel walk child)
        (walk.mark node)).finish node

/-- The nodes that can be reached from the first one, each before all nodes it leads to except
over edges that go back. -/
def reversePostorder (graph : Graph) : List Nat :=
  (graph.walkFrom graph.size (.fresh graph) 0).done

/-- The marks after a walk from the first node that may not enter a given node.  Apart from that
node, exactly the nodes that can be reached without it are marked. -/
def marksAvoiding (graph : Graph) (avoided : Nat) : Array Bool :=
  (graph.walkFrom graph.size ((Walk.fresh graph).mark avoided) 0).marked

end Graph

end Bytescript.Flow
