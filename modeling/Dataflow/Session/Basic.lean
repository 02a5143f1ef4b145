import Dataflow.Analysis.Contents
import Dataflow.Analysis.Copies
import Dataflow.Analysis.PointsTo
import Dataflow.Analysis.Solver
import Dataflow.Analysis.Taint
import Dataflow.Session.Cache
import Dataflow.Session.Outcome

/-!
# Sessions

A session answers requests for analyses. It first requests what an analysis depends on:
the points-to analysis, unless the configuration does without it, and for the analysis
of literal content the copy analysis if the configuration asks for it. Its desk holds
what requests change: the cache, the log of events, and whether the work was cancelled.
-/

namespace Dataflow

/-- What happens to a run of an analysis. -/
inductive RunEvent where
  /-- The run begins. -/
  | started (kind : AnalysisKind) (target : Symbol)
  /-- The run is over, whether it succeeded or not. -/
  | completed (kind : AnalysisKind) (target : Symbol)
  deriving DecidableEq, Repr

/-- What a session knows. -/
structure Session where
  /-- The bodies of methods, if there is a place to look for them. -/
  provider : Option (Symbol → Option LoadedGraph)
  /-- The types that taint rules may be about. -/
  types : KnownTypes
  /-- Whether events are logged. -/
  observed : Bool

/-- What runs change. -/
structure Journal where
  /-- The events, the last one first. -/
  events : List RunEvent
  /-- Whether the work was cancelled. -/
  cancelled : Bool
  deriving DecidableEq

/-- The cache of a session: taint rules count besides the configuration. -/
abbrev ResultCache := Cache (Option TaintConfig) Outcome

/-- What requests change. -/
abbrev Desk := ResultCache × Journal

/-- A request to a session. -/
abbrev Request := ExceptT Failure (StateM Desk)

/-- The desk before the first request. -/
def Desk.clean : Desk := (Cache.empty, ⟨[], false⟩)

namespace Outcome

/-- The points-to solutions. -/
def pointsToView : Cache.View Outcome (Solution PointsTo) where
  write := pointsTo
  read
    | pointsTo s => some s
    | _ => none

/-- The copy solutions. -/
def copyView : Cache.View Outcome (Solution CopyClass) where
  write := copy
  read
    | copy s => some s
    | _ => none

/-- The solutions for literal content. -/
def valueContentView : Cache.View Outcome (Solution Content) where
  write := valueContent
  read
    | valueContent s => some s
    | _ => none

/-- The taint solutions. -/
def taintedDataView : Cache.View Outcome (Solution Taint) where
  write := taintedData
  read
    | taintedData s => some s
    | _ => none

end Outcome

namespace Journal

/-- Logs an event. -/
def log (e : RunEvent) (j : Journal) : Journal := { j with events := e :: j.events }

end Journal

namespace Session

/-! ### Sessions -/

/-- A session without bodies and types, which logs nothing. -/
def bare : Session := ⟨none, KnownTypes.ofList [], false⟩

/-- The bodies of a program. -/
def providerOf (number : Nat) (p : Program) (method : Symbol) : Option LoadedGraph :=
  (p.body? method).map fun g => ⟨.body number method, g⟩

/-- A session for a program. The number tells programs apart. -/
def ofProgram (number : Nat) (p : Program) : Session := ⟨some (providerOf number p), p.knownTypes, false⟩

/-- The body of a method. -/
def loaded? (s : Session) (method : Symbol) : Option LoadedGraph := s.provider.bind (· method)

/-- The bodies that callees may have. -/
def bodies (s : Session) (method : Symbol) : Option Graph := (s.loaded? method).map (·.graph)

/-- The text of a session: what it knows, and how much it has done. -/
def text (s : Session) (c : ResultCache) : String :=
  "AnalysisSession \x7b has_provider: " ++ toString s.provider.isSome ++ ", types: " ++
    toString s.types.size ++ ", cache: ResultCache \x7b entries: " ++ toString c.size ++
    ", computations: " ++ toString c.computations ++ " \x7d \x7d"

/-! ### Runs -/

/-- Whether a run comes to an end that is logged: one that breaks a rule is torn off. -/
def endsOrderly {α : Type} : Except Failure α → Bool
  | .error (.violated _) => false
  | _ => true

/-- Runs an analysis, unless the result is there. -/
def compute {V : Type} [DecidableEq V] (s : Session) (view : Cache.View Outcome (Solution V))
    (A : Analysis V) (g : LoadedGraph) (config : Config) (discriminator : Option TaintConfig)
    (prepare : Context V → Context V) : Request (Stored (Solution V)) :=
  Cache.request view .mistyped ⟨A.kind, g.label, config, discriminator⟩ fun journal =>
    let target := g.graph.owner
    let journal := if s.observed then journal.log (.started A.kind target) else journal
    let ctx := prepare (Context.start g.graph config s.bodies)
    let (r, ledger) := (A.solve ctx).run (Ledger.start journal.cancelled)
    let journal := { journal with cancelled := ledger.cancelled }
    (r, if s.observed && endsOrderly r then journal.log (.completed A.kind target) else journal)

/-- Requests the points-to analysis of a body. -/
def pointsTo (s : Session) (g : LoadedGraph) (config : Config) : Request (Stored (Solution PointsTo)) :=
  s.compute Outcome.pointsToView Analysis.pointsTo g config none id

/-- Requests the points-to analysis that another analysis uses. -/
def pointsToFor (s : Session) (g : LoadedGraph) (config : Config) : Request (Option (Solution PointsTo)) := do
  if config.pointsToUse = .none then return none
  return some (← s.pointsTo g config).value

/-- Requests the copy analysis of a body. -/
def copy (s : Session) (g : LoadedGraph) (config : Config) : Request (Stored (Solution CopyClass)) := do
  let pointsTo ← s.pointsToFor g config
  s.compute Outcome.copyView Analysis.copies g config none fun ctx => { ctx with pointsTo }

/-- Requests the copy analysis that another analysis uses. -/
def copyFor (s : Session) (g : LoadedGraph) (config : Config) : Request (Option (Solution CopyClass)) := do
  if !config.usesCopies then return none
  return some (← s.copy g config).value

/-- Requests the analysis of literal content of a body. -/
def valueContent (s : Session) (g : LoadedGraph) (config : Config) : Request (Stored (Solution Content)) := do
  let pointsTo ← s.pointsToFor g config
  let copies ← s.copyFor g config
  s.compute Outcome.valueContentView Analysis.contents g config none fun ctx => { ctx with pointsTo, copies }

/-- Requests the taint analysis of a body. -/
def taintedData (s : Session) (g : LoadedGraph) (config : Config) (taint : TaintConfig) :
    Request (Stored (Solution Taint)) := do
  let pointsTo ← s.pointsToFor g config
  let rules := TaintRules.ofConfig s.types taint
  s.compute Outcome.taintedDataView (Analysis.taint rules) g config (some taint) fun ctx =>
    { ctx with pointsTo }

/-- Requests an analysis of a body. -/
def analyze (s : Session) (kind : AnalysisKind) (g : LoadedGraph) (config : Config) (taint : TaintConfig) :
    Request (Stored Outcome) := do
  match kind with
  | .pointsTo =>
    let r ← s.pointsTo g config
    return ⟨r.number, .pointsTo r.value⟩
  | .copy =>
    let r ← s.copy g config
    return ⟨r.number, .copy r.value⟩
  | .valueContent =>
    let r ← s.valueContent g config
    return ⟨r.number, .valueContent r.value⟩
  | .taintedData =>
    let r ← s.taintedData g config taint
    return ⟨r.number, .taintedData r.value⟩

/-- Requests an analysis of a method; there is no outcome if it has no body. -/
def analyzeMethod (s : Session) (kind : AnalysisKind) (method : Symbol) (config : Config)
    (taint : TaintConfig) : Request (Option (Stored Outcome)) := do
  match s.loaded? method with
  | some g => return some (← s.analyze kind g config taint)
  | none => return none

/-- Requests an analysis of each of some methods. A failure concerns one method only. -/
def analyzeAll (s : Session) (kind : AnalysisKind) (methods : List Symbol) (config : Config)
    (taint : TaintConfig) : StateM Desk (List (Symbol × Except Failure (Option (Stored Outcome)))) :=
  methods.mapM fun method => return (method, ← (s.analyzeMethod kind method config taint).run)

/-- Requests the body of a method. -/
def graphOf (s : Session) (method : Symbol) : Except Failure LoadedGraph :=
  match s.loaded? method with
  | some g => .ok g
  | none => .error (.missingGraph method)

/-- Cancels all work. -/
def cancel : StateM Desk Unit := modify fun (c, j) => (c, { j with cancelled := true })

/-- Forgets all results. -/
def clear : StateM Desk Unit := modify fun (c, j) => (c.clear, j)

/-- Whether work may go on. -/
def check : Request Unit := do
  if (← get).2.cancelled then throw .cancelled

end Session

end Dataflow
