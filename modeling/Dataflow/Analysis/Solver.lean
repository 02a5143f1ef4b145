import Dataflow.Analysis.Calls
import Dataflow.Analysis.Evaluation
import Dataflow.Graph.Traversal

/-!
# The solver

The blocks are swept in reverse post-order until a sweep changes no state at the end of
a block. A block is visited anew only if the state at its start changes. A block that
was visited often has the changes at its start widened.
-/

namespace Dataflow

namespace State

variable {V : Type}

/-- What holds if any of some states may hold; nothing if there is none. -/
def mergeAll (D : Domain V) : List (State V) → Option (State V)
  | [] => none
  | s :: l => some (l.foldl (merge D) s)

end State

/-- How far a run has come. -/
structure Progress (V : Type) where
  /-- The state at the start of each block that was visited. -/
  entries : FinMap BlockId (State V)
  /-- The state at the end of each block that was visited. -/
  exits : FinMap BlockId (State V)
  /-- How often each block was visited. -/
  visits : FinMap BlockId Nat
  /-- The number of sweeps. -/
  passes : Nat

namespace Progress

variable {V : Type}

/-- No block was visited. -/
def start : Progress V := ⟨FinMap.empty, FinMap.empty, FinMap.empty, 0⟩

/-- How often a block was visited. -/
def visitsOf (p : Progress V) (b : BlockId) : Nat := (p.visits.find? b).getD 0

/-- What flows into a block: the initial state into the entry, and into any other block
what its predecessors leave, if one of them was visited. -/
def inflow (D : Domain V) (g : Graph) (initial : State V) (p : Progress V) (b : Block) :
    Option (State V) :=
  if b.isEntry then some initial
  else State.mergeAll D ((g.predecessors b.id).filterMap p.exits.find?)

/-- The state to visit a block in, if there is a new one. -/
def nextEntry [DecidableEq V] (D : Domain V) (g : Graph) (threshold : Nat) (initial : State V)
    (p : Progress V) (b : Block) : Option (State V) :=
  match p.inflow D g initial b, p.entries.find? b.id with
  | none, _ => none
  | some input, none => some input
  | some input, some previous =>
    if previous = input then none
    else if threshold ≤ p.visitsOf b.id then
      let widened := State.widen D previous input
      if previous = widened then none else some widened
    else some input

/-- A visit of a block begins. -/
def enter (p : Progress V) (b : BlockId) (input : State V) : Progress V :=
  { p with
    entries := p.entries.insert b input
    visits := p.visits.insert b (p.visitsOf b + 1) }

/-- A visit of a block ends. -/
def leave (p : Progress V) (b : BlockId) (output : State V) : Progress V :=
  { p with exits := p.exits.insert b output }

end Progress

namespace Analysis

variable {V : Type} (A : Analysis V) (ctx : Context V)

/-- The entities that a body starts with: parameters by position, then the receiver. -/
def initialEntities : List Entity :=
  ctx.graph.parameters.map (Entity.localVar · ctx.owner) ++
    if ctx.owner.containingType.isSome then [.receiver ctx.owner] else []

/-- The state that a body starts in if its caller does not determine it. -/
def defaultEntry : Checked (State V) :=
  (initialEntities ctx).foldlM (fun s e => return s.insert e (← A.parameterValue e)) State.empty

/-- The state that a body starts in. -/
def initialState : Checked (State V) :=
  match ctx.entry with
  | some s => .ok s
  | none => A.defaultEntry ctx

variable (usual : Call V → Visit V V)

/-- Visits the operations of a block in a state, and says which state they leave. -/
def runBlock (b : Block) (input : State V) : Visit V (State V) := do
  Visit.setState input
  b.allOperations.forM fun op => do
    Visit.recordBefore op.id
    let _ ← A.visit ctx usual op
  A.leaveScope b.leavingScope
  Visit.state

variable [DecidableEq V]

/-- Visits a block if there is a new state for it, and says whether what it leaves has
changed. -/
def visitBlock (initial : State V) (b : Block) (p : Progress V) : Visit V (Progress V × Bool) := do
  Visit.checkCancelled
  match p.nextEntry A.domain ctx.graph ctx.config.visitsBeforeWidening.toNat initial b with
  | none => return (p, false)
  | some input =>
    let p := p.enter b.id input
    let output ← A.runBlock ctx usual b input
    if p.exits.find? b.id = some output then return (p, false)
    else return (p.leave b.id output, true)

/-- Visits some blocks, and says whether what any of them leaves has changed. -/
def sweep (initial : State V) : List Block → Progress V → Visit V (Progress V × Bool)
  | [], p => return (p, false)
  | b :: bs, p => do
    let (p, changed) ← A.visitBlock ctx usual initial b p
    let (p, changedLater) ← sweep initial bs p
    return (p, changed || changedLater)

/-- Sweeps until nothing changes, up to a limit. -/
def settle (initial : State V) (order : List Block) : (limit : Nat) → Progress V → Visit V (Progress V)
  | 0, _ => throw .endless
  | limit + 1, p => do
    let (p, changed) ← A.sweep ctx usual initial order { p with passes := p.passes + 1 }
    if changed then settle initial order limit p else return p

/-- The number of sweeps that a machine word can count. -/
def sweepLimit : Nat := UInt64.size

/-- The reachable blocks in the order of sweeps. -/
def sweepOrder (g : Graph) : List Block := g.reversePostOrder.filterMap g.block?

/-- Visits the body until nothing changes. -/
def settleBody : Visit V (Progress V) := do
  let initial ← Visit.check (A.initialState ctx)
  A.settle ctx usual initial (sweepOrder ctx.graph) sweepLimit Progress.start

/-- What the returns of a body return together. -/
def returnedBy (D : Domain V) : List V → Option V
  | [] => none
  | v :: l => some (l.foldl D.merge v)

/-- The solution of a body from what was noted about it. -/
def solutionOf (p : Progress V) (n : Notes V) : Solution V where
  kind := A.kind
  graph := ctx.graph
  entries := p.entries
  exits := p.exits
  visits := p.visits
  values := n.values
  before := n.before
  entities := n.entities
  returned := returnedBy A.domain n.returns.values
  callees := n.callees.entries
  hits := n.hits
  passes := p.passes

/-- Solves a body, with a given way to handle calls. -/
def solveBody : Run V (Solution V) := fun ledger =>
  let notes := Notes.start (Resolver.start ctx.owner ctx.tracksUnknown)
  let (r, m) := (A.settleBody ctx usual).run ⟨State.empty, notes, ledger⟩
  (r.map (A.solutionOf ctx · m.notes), m.ledger)

/-- Solves a body whose chain of calls may grow by `depth`. -/
def solveWithin : (depth : Nat) → Context V → Run V (Solution V)
  | 0, ctx => A.solveBody ctx (A.handleCall ctx none)
  | depth + 1, ctx => A.solveBody ctx (A.handleCall ctx (some (solveWithin depth)))

/-- Solves a body. The chain of calls may grow to the length that is configured. -/
def solve : Run V (Solution V) :=
  A.solveWithin (ctx.config.calls.maxCallChain.toNat - ctx.callStack.length) ctx

end Analysis

end Dataflow
