import Dataflow.Graph.Basic

/-!
# The order in which blocks are visited

A depth-first walk from the entry takes the branches of a block in their order.
A block is finished when all that can be reached from it is. The reverse of the
order of finishing puts every block before its successors, except along the edges
that close a cycle.
-/

namespace Dataflow

namespace Graph

/-- How far a walk has come. -/
structure Walk where
  /-- The blocks that were entered, in any order. -/
  seen : List BlockId
  /-- The blocks that are finished, the last one first. -/
  finished : List BlockId
  deriving DecidableEq, Repr

/-- Walks on from a block that may have been seen. A path meets no block twice
before it stops, so `depth` need not exceed the number of blocks. -/
def walkFrom (g : Graph) : (depth : Nat) → Walk → BlockId → Walk
  | 0, w, _ => w
  | depth + 1, w, b =>
    if b ∈ w.seen then w
    else
      let below := (g.successors b).foldl (g.walkFrom depth) ⟨b :: w.seen, w.finished⟩
      ⟨below.seen, b :: below.finished⟩

/-- The reachable blocks, each before its successors except along cycles. -/
def reversePostOrder (g : Graph) : List BlockId :=
  (g.walkFrom (g.blocks.length + 1) ⟨[], []⟩ entry).finished

end Graph

end Dataflow
