import Dataflow.Graph.Basic
import Dataflow.Operation.Text

/-!
# The text of blocks and graphs

A block is a head line, a line for each operation, and a last line with the
blocks that may run next. A graph is its owner and its blocks.
-/

namespace Dataflow

/-- The text of a block, without a line break at its end. -/
def Block.text (b : Block) : String :=
  b.id.text ++ " (" ++ b.kind.text ++ "):\n" ++
    String.join (b.operations.map fun op => "  " ++ op.id.text ++ ": " ++ op.text ++ "\n") ++
    (match b.condition with
      | some c => "  branch on " ++ c.text ++ "\n"
      | none => "") ++
    "  ->" ++ String.join (b.successors.map fun s => " " ++ s.text)

/-- The text of a graph. -/
def Graph.text (g : Graph) : String :=
  g.owner.text ++ ":\n" ++ String.join (g.blocks.map fun b => b.text ++ "\n")

end Dataflow
