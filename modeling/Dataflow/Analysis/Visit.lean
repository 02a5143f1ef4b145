import Dataflow.Analysis.Context
import Dataflow.Analysis.Failure
import Dataflow.Entity.Resolver

/-!
# Visits

A visit of an operation works on the state at hand, on what has been noted about the
body, and on the ledger. All three survive a failure; so a filter that cancels the
work while a visit fails is still heard.
-/

namespace Dataflow

/-- What is noted about a body while its operations are visited. A later visit of an
operation replaces what an earlier one noted. -/
structure Notes (V : Type) where
  /-- The names of storage. -/
  resolver : Resolver
  /-- The value of each operation. -/
  values : FinMap OperationId V
  /-- The entity that each reference stands for. -/
  entities : FinMap OperationId Entity
  /-- The state before each operation that stands for itself. -/
  before : FinMap OperationId (State V)
  /-- The value at each return. -/
  returns : FinMap OperationId V
  /-- The solution of the callee at each call site. -/
  callees : FinMap OperationId (Solution V)
  /-- Where untrusted data reaches sensitive arguments. -/
  hits : HitLog
  /-- Where the data in an entity may come from; this only grows. -/
  entityOrigins : FinMap Entity (FinSet SymbolAccess)
  /-- Where the data of an operation may come from. -/
  operationOrigins : FinMap OperationId (FinSet SymbolAccess)

/-- The notes of a body that was not visited yet. -/
def Notes.start {V : Type} (resolver : Resolver) : Notes V where
  resolver := resolver
  values := FinMap.empty
  entities := FinMap.empty
  before := FinMap.empty
  returns := FinMap.empty
  callees := FinMap.empty
  hits := HitLog.empty
  entityOrigins := FinMap.empty
  operationOrigins := FinMap.empty

/-- What a visit works on. -/
structure Machine (V : Type) where
  /-- The state at the point where control is. -/
  state : State V
  /-- What is noted about the body. -/
  notes : Notes V
  /-- What is shared with other runs. -/
  ledger : Ledger V

/-- A step of a run over a body. -/
abbrev Visit (V : Type) := ExceptT Failure (StateM (Machine V))

/-- A run over a body. -/
abbrev Run (V : Type) := ExceptT Failure (StateM (Ledger V))

namespace Visit

variable {V : Type}

/-! ### The state -/

/-- The state at hand. -/
def state : Visit V (State V) := return (← get).state

/-- Goes on with another state. -/
def setState (s : State V) : Visit V Unit := modify fun m => { m with state := s }

/-- A computation that may break a rule. -/
def check {α : Type} : Checked α → Visit V α
  | .ok a => return a
  | .error v => throw (.violated v)

/-- Changes the state by a computation that may break a rule. -/
def update (f : State V → Checked (State V)) : Visit V Unit := do
  setState (← check (f (← state)))

/-! ### The ledger -/

/-- Stops if the work was cancelled. -/
def checkCancelled : Visit V Unit := do
  if (← get).ledger.cancelled then throw .cancelled

/-- Lets a run over another body work on the ledger. -/
def ofRun {α : Type} (r : Run V α) : Visit V α := fun m =>
  let (a, ledger) := r.run.run m.ledger
  (a, { m with ledger })

/-- Works on the ledger. -/
def modifyLedger (f : Ledger V → Ledger V) : Visit V Unit := modify fun m => { m with ledger := f m.ledger }

/-! ### The notes -/

/-- What has been noted. -/
def notes : Visit V (Notes V) := return (← get).notes

/-- Changes what has been noted. -/
def modifyNotes (f : Notes V → Notes V) : Visit V Unit := modify fun m => { m with notes := f m.notes }

/-- Notes the value of an operation. -/
def recordValue (op : OperationId) (v : V) : Visit V Unit :=
  modifyNotes fun n => { n with values := n.values.insert op v }

/-- Notes the entity that an operation stands for, or that it stands for none. -/
def recordEntity (op : OperationId) (e : Option Entity) : Visit V Unit :=
  modifyNotes fun n => { n with
    entities :=
      match e with
      | some e => n.entities.insert op e
      | none => n.entities.erase op }

/-- Notes the state at hand as the state before an operation. -/
def recordBefore (op : OperationId) : Visit V Unit := do
  let s ← state
  modifyNotes fun n => { n with before := n.before.insert op s }

/-- Notes what a return returns. -/
def recordReturn (op : OperationId) (v : V) : Visit V Unit :=
  modifyNotes fun n => { n with returns := n.returns.insert op v }

/-- The entity noted for an operation. -/
def entityOf (op : OperationId) : Visit V (Option Entity) := return (← notes).entities.find? op

/-- The entity of an operation, which is noted. -/
def resolve (op : Operation) (owner : Option PointsTo) (indices : List ElementIndex) :
    Visit V (Option Entity) := do
  let (e, resolver) := (← notes).resolver.resolve op owner indices
  modifyNotes fun n => { n with resolver }
  recordEntity op.id e
  return e

/-- Lets a temporary stand for storage. -/
def bindCapture (capture : CaptureId) (target : Entity) : Visit V Unit :=
  modifyNotes fun n => { n with resolver := n.resolver.bind capture target }

/-! ### Origins -/

/-- Where the data of an operation may come from. -/
def originsOf (op : OperationId) : Visit V (FinSet SymbolAccess) :=
  return ((← notes).operationOrigins.find? op).getD FinSet.empty

/-- Where the data of any of some operations may come from. -/
def originsOfAll (ops : List Operation) : Visit V (FinSet SymbolAccess) := do
  let n ← notes
  return ops.foldl (fun s op => s.union ((n.operationOrigins.find? op.id).getD FinSet.empty)) FinSet.empty

/-- Notes where the data of an operation may come from. -/
def setOrigins (op : OperationId) (origins : FinSet SymbolAccess) : Visit V Unit :=
  modifyNotes fun n => { n with
    operationOrigins :=
      if origins.isEmpty then n.operationOrigins.erase op else n.operationOrigins.insert op origins }

/-- Notes further places where the data in an entity may come from. -/
def addEntityOrigins (e : Entity) (origins : FinSet SymbolAccess) : Visit V Unit :=
  modifyNotes fun n => { n with
    entityOrigins :=
      if origins.isEmpty then n.entityOrigins
      else n.entityOrigins.insert e (((n.entityOrigins.find? e).getD FinSet.empty).union origins) }

/-- Where the data in an entity may come from. -/
def entityOriginsOf (e : Option Entity) : Visit V (FinSet SymbolAccess) :=
  return ((e.bind (← notes).entityOrigins.find?).getD FinSet.empty)

/-! ### Hits -/

/-- Changes the hits that have been noted. -/
def modifyHits (f : HitLog → HitLog) : Visit V Unit := modifyNotes fun n => { n with hits := f n.hits }

end Visit

end Dataflow
