import Dataflow.Graph.Block

/-!
# Control flow graphs

The blocks of one method body. A graph is only made by `Graph.ofBlocks?`, which
checks the block list and names the first rule that it breaks: the entry is the
first block and the only one of its kind, the exit is the only one of its kind,
no edge leads nowhere or into the entry, and none leaves the exit.
-/

namespace Dataflow

/-- The rule that a block list breaks. -/
inductive GraphError where
  /-- There is no block. -/
  | empty
  /-- A block claims another position than its own. -/
  | misplaced (index : Nat) (id : BlockId)
  /-- The first block is not an entry. -/
  | missingEntry
  /-- Another block is an entry, too. -/
  | duplicateEntry
  /-- No block is an exit. -/
  | missingExit
  /-- Two blocks are exits. -/
  | duplicateExit
  /-- A branch leads to a block that does not exist. -/
  | dangling (source target : BlockId)
  /-- A branch leads into the entry. -/
  | entered
  /-- A branch leaves the exit. -/
  | left
  deriving DecidableEq, Repr

namespace GraphError

/-- What is wrong. -/
def message : GraphError → String
  | empty => "control flow graph has no blocks"
  | misplaced index id => "block at index " ++ toString index ++ " declares id " ++ id.text
  | missingEntry => "block 0 is not an entry block"
  | duplicateEntry => "control flow graph has more than one entry block"
  | missingExit => "control flow graph has no exit block"
  | duplicateExit => "control flow graph has more than one exit block"
  | dangling source target => "block " ++ source.text ++ " branches to missing block " ++ target.text
  | entered => "entry block has incoming edges"
  | left => "exit block has outgoing edges"

end GraphError

/-- The blocks of one method body. -/
structure Graph where
  /-- The method. -/
  owner : Symbol
  /-- Its parameters, by position. -/
  parameters : List Symbol
  /-- The blocks, each at the position it names. -/
  blocks : List Block
  deriving Repr

namespace Graph

/-! ### The rules, one by one -/

/-- The first block that does not name its own position, counted from `index` on. -/
def misplaced? (index : Nat) : List Block → Option GraphError
  | [] => none
  | b :: bs => if b.id.toNat = index then misplaced? (index + 1) bs else some (.misplaced index b.id)

/-- The first branch to a position outside of the list. -/
def dangling? (blocks : List Block) : Option GraphError :=
  (blocks.flatMap fun b => b.branches.map fun e => (b.id, e.destination)).find?
      (fun e => blocks.length ≤ e.2.toNat)
    |>.map fun e => .dangling e.1 e.2

/-- The first rule that the block list breaks. -/
def fault? (blocks : List Block) : Option GraphError :=
  match blocks with
  | [] => some .empty
  | first :: others =>
    match misplaced? 0 blocks with
    | some e => some e
    | none =>
      if !first.isEntry then some .missingEntry
      else if others.any (·.isEntry) then some .duplicateEntry
      else
        match blocks.filter (·.isExit) with
        | [] => some .missingExit
        | _ :: _ :: _ => some .duplicateExit
        | [exit] =>
          match dangling? blocks with
          | some e => some e
          | none =>
            if blocks.any fun b => b.successors.any (· = first.id) then some .entered
            else if !exit.branches.isEmpty then some .left
            else none

/-- The graph of a block list, or the first rule that the list breaks. -/
def ofBlocks? (owner : Symbol) (parameters : List Symbol) (blocks : List Block) :
    Except GraphError Graph :=
  match fault? blocks with
  | some e => .error e
  | none => .ok ⟨owner, parameters, blocks⟩

/-- The blocks pass every rule. -/
def Valid (g : Graph) : Prop := fault? g.blocks = none

instance (g : Graph) : Decidable g.Valid := inferInstanceAs (Decidable (_ = _))

theorem valid_of_ofBlocks? {owner : Symbol} {parameters : List Symbol} {blocks : List Block}
    {g : Graph} (h : ofBlocks? owner parameters blocks = .ok g) : g.Valid := by
  unfold ofBlocks? at h
  split at h
  · cases h
  · next hf =>
    cases h
    exact hf

/-! ### Parts of a graph -/

/-- The block at a position. -/
def block? (g : Graph) (b : BlockId) : Option Block := g.blocks[b.toNat]?

/-- Where control enters: the first block. -/
def entry : BlockId := ⟨0⟩

/-- Where control leaves: the first exit block. -/
def exit (g : Graph) : BlockId :=
  match g.blocks.find? (·.isExit) with
  | some b => b.id
  | none => entry

/-- The blocks that may run after a block, one for each branch. -/
def successors (g : Graph) (b : BlockId) : List BlockId :=
  match g.block? b with
  | some block => block.successors
  | none => []

/-- The blocks with a branch to a block, each once, in the order of the graph. -/
def predecessors (g : Graph) (b : BlockId) : List BlockId :=
  (g.blocks.filter fun p => p.successors.contains b).map (·.id)

/-- The operations of the graph that stand for themselves, block by block. -/
def operations (g : Graph) : List Operation := g.blocks.flatMap (·.allOperations)

/-- The number of operations, operands included. -/
def operationCount (g : Graph) : Nat := g.operations.foldl (fun n op => n + op.treeSize) 0

end Graph

end Dataflow
