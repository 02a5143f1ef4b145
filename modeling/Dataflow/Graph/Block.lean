import Dataflow.Operation.Basic

/-!
# Basic blocks

A block is a list of operations that run one after the other, an optional
condition, and the branches to the blocks that may run next. Blocks are named by
their position in the graph.
-/

namespace Dataflow

/-- Names a block by its position. -/
structure BlockId where
  /-- The position. -/
  index : UInt64
  deriving DecidableEq, Repr

namespace BlockId

instance : Ord BlockId := ⟨compareOn index⟩

instance : Std.TransOrd BlockId := inferInstanceAs (Std.TransCmp (compareOn index))

instance : Std.LawfulEqOrd BlockId :=
  lawfulEqOrd_of fun a b h => by
    cases a
    cases b
    simpa using compareOn_eq_iff.1 h

/-- The block at a position. -/
def ofNat (n : Nat) : BlockId := ⟨UInt64.ofNat n⟩

/-- The position. -/
def toNat (b : BlockId) : Nat := b.index.toNat

/-- A block is written as `B7`. -/
def text (b : BlockId) : String := "B" ++ toString b.index

end BlockId

/-- The role of a block in its graph. -/
inductive BlockKind where
  /-- Where control enters. -/
  | entry
  /-- An inner block. -/
  | block
  /-- Where control leaves. -/
  | exit
  deriving DecidableEq, Repr

namespace BlockKind

/-- The name of the role. -/
def text : BlockKind → String
  | entry => "Entry"
  | block => "Block"
  | exit => "Exit"

end BlockKind

/-- When a branch is taken. -/
inductive BranchKind where
  /-- Always. -/
  | regular
  /-- When the condition holds. -/
  | whenTrue
  /-- When the condition fails. -/
  | whenFalse
  deriving DecidableEq, Repr

namespace BranchKind

/-- The name of the kind. -/
def text : BranchKind → String
  | regular => "Regular"
  | whenTrue => "WhenTrue"
  | whenFalse => "WhenFalse"

end BranchKind

/-- An edge of the graph. -/
structure Branch where
  /-- The block that runs next. -/
  destination : BlockId
  /-- When the edge is taken. -/
  kind : BranchKind
  deriving DecidableEq, Repr

/-- A basic block. -/
structure Block where
  /-- The position that the block claims for itself. -/
  id : BlockId
  /-- The role. -/
  kind : BlockKind
  /-- The operations, in order. -/
  operations : List Operation
  /-- The condition, evaluated after the operations. -/
  condition : Option Operation
  /-- The edges to the blocks that may run next. -/
  branches : List Branch
  /-- The locals whose scope ends when control leaves the block. -/
  leavingScope : List Symbol
  deriving Repr

namespace Block

/-- A block without content. -/
def bare (id : BlockId) (kind : BlockKind) : Block := ⟨id, kind, [], none, [], []⟩

/-- Whether control enters here. -/
def isEntry (b : Block) : Bool := b.kind == .entry

/-- Whether control leaves here. -/
def isExit (b : Block) : Bool := b.kind == .exit

/-- The operations, with the condition last. -/
def allOperations (b : Block) : List Operation := b.operations ++ b.condition.toList

/-- The blocks that may run next, one for each branch. -/
def successors (b : Block) : List BlockId := b.branches.map (·.destination)

end Block

end Dataflow
