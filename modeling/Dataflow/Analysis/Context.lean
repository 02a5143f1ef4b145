import Dataflow.Analysis.Solution
import Dataflow.Lattice.PointsTo

/-!
# Contexts and ledgers

A context is what one run over one body knows from outside. Callees get contexts of
their own, derived from their caller's. The ledger is what a run shares with all
runs that it causes: how many operations were analysed on the way, the solutions of
callees, and whether the work was cancelled.
-/

namespace Dataflow

/-- A call that is under way. -/
structure CallFrame where
  /-- The calling method. -/
  method : Symbol
  /-- The call in its body. -/
  callSite : OperationId
  deriving DecidableEq, Repr

/-- What a run over one body knows from outside. -/
structure Context (V : Type) where
  /-- The body. -/
  graph : Graph
  /-- How the analysis is to be run. -/
  config : Config
  /-- The bodies that are available. -/
  bodies : Symbol → Option Graph
  /-- Where the references of the body point. -/
  pointsTo : Option (Solution PointsTo)
  /-- The copies in the body. -/
  copies : Option (Solution CopyClass)
  /-- The calls that led here, the outermost first. -/
  callStack : List CallFrame
  /-- The state that the body starts in, if the caller determines it. -/
  entry : Option (State V)

namespace Context

variable {V : Type}

/-- A context of a body that nobody calls. -/
def start (graph : Graph) (config : Config) (bodies : Symbol → Option Graph) : Context V :=
  ⟨graph, config, bodies, none, none, [], none⟩

/-- The method. -/
def owner (ctx : Context V) : Symbol := ctx.graph.owner

/-- The call sites that led here, the outermost first. -/
def callSites (ctx : Context V) : List OperationId := ctx.callStack.map (·.callSite)

/-- Whether a method is being analysed. -/
def isOnStack (ctx : Context V) (method : Symbol) : Bool :=
  ctx.owner == method || ctx.callStack.any (·.method == method)

/-- Whether entities of unknown objects are tracked. -/
def tracksUnknown (ctx : Context V) : Bool := ctx.config.pointsToUse != .partialOnly

/-- Where an operation's value points according to the points-to analysis. -/
def locationOf (ctx : Context V) (op : Operation) : PointsTo :=
  match ctx.pointsTo.bind (·.valueAt op.id) with
  | some v => v
  | none => if op.isReferenceType then .unknown else PointsTo.noLocation

/-- The context of a callee. -/
def forCallee (ctx : Context V) (graph : Graph) (site : OperationId) (entry : Option (State V)) :
    Context V :=
  { ctx with
    graph
    entry
    pointsTo := ctx.pointsTo.bind (·.calleeAt site)
    copies := ctx.copies.bind (·.calleeAt site)
    callStack := ctx.callStack ++ [⟨ctx.owner, site⟩] }

end Context

/-- What the solution of a callee that is analysed in context depends on. -/
structure CallKey (V : Type) where
  /-- The callee. -/
  callee : Symbol
  /-- The call sites that lead to it, the outermost first. -/
  callSites : List OperationId
  /-- The state that it starts in. -/
  entry : State V
  deriving DecidableEq

/-- What a run shares with all runs that it causes. -/
structure Ledger (V : Type) where
  /-- The number of operations of all callees that were analysed. -/
  nodesUsed : UInt64
  /-- The solutions of callees that serve all their calls. -/
  summaries : FinMap Symbol (Solution V)
  /-- The solutions of callees in context. -/
  contextual : List (CallKey V × Solution V)
  /-- Whether the work was cancelled. -/
  cancelled : Bool

namespace Ledger

variable {V : Type}

/-- The ledger of a run that begins. -/
def start (cancelled : Bool) : Ledger V := ⟨0, FinMap.empty, [], cancelled⟩

/-- Claims a number of operations, unless that exceeds the budget. The count must fit a
machine word. -/
def reserve? (nodes budget : UInt64) (ledger : Ledger V) : Checked (Option (Ledger V)) :=
  if UInt64.size ≤ ledger.nodesUsed.toNat + nodes.toNat then .error .countOverflow
  else if ledger.nodesUsed + nodes > budget then .ok none
  else .ok (some { ledger with nodesUsed := ledger.nodesUsed + nodes })

/-- The number of callee solutions. -/
def analyzedCallees (ledger : Ledger V) : Nat := ledger.summaries.size + ledger.contextual.length

/-- The solution that a callee has in a context. -/
def inContext? [DecidableEq V] (key : CallKey V) (ledger : Ledger V) : Option (Solution V) :=
  ledger.contextual.lookup key

/-- The solution of a callee that serves all its calls. -/
def summary? (callee : Symbol) (ledger : Ledger V) : Option (Solution V) := ledger.summaries.find? callee

/-- Files the solution of a callee in a context. -/
def storeInContext (key : CallKey V) (s : Solution V) (ledger : Ledger V) : Ledger V :=
  { ledger with contextual := (key, s) :: ledger.contextual }

/-- Files the solution of a callee for all its calls. -/
def storeSummary (callee : Symbol) (s : Solution V) (ledger : Ledger V) : Ledger V :=
  { ledger with summaries := ledger.summaries.insert callee s }

end Ledger

end Dataflow
