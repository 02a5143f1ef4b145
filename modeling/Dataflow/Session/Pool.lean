import Dataflow.Session.Basic

/-!
# Sessions with one cache

Several sessions may use one cache. Each knows bodies and types of its own, and has a log and a
cancellation of its own.
-/

namespace Dataflow

/-- A request for an analysis to one of some sessions. -/
structure Inquiry where
  /-- The number of the session. -/
  session : Nat
  /-- Which analysis. -/
  kind : AnalysisKind
  /-- The body. -/
  graph : LoadedGraph
  /-- How the analysis is to be run. -/
  config : Config
  /-- The taint rules, which only the taint analysis looks at. -/
  taint : TaintConfig

/-- What requests to sessions with one cache change. -/
structure Pool where
  /-- The cache. -/
  cache : ResultCache
  /-- What each session changes by itself. -/
  journals : Nat → Journal

namespace Pool

/-- Before the first request. -/
def clean : Pool := ⟨Cache.empty, fun _ => ⟨[], false⟩⟩

variable (sessions : Nat → Session)

/-- Asks a session. The number of the computation is not looked at. -/
def ask (q : Inquiry) : StateM Pool (Except Failure Outcome) := fun p =>
  let (r, cache, journal) :=
    ((sessions q.session).analyze q.kind q.graph q.config q.taint).run (p.cache, p.journals q.session)
  (r.map (·.value), ⟨cache, fun i => if i = q.session then journal else p.journals i⟩)

/-- Asks sessions one after the other. -/
def askAll (l : List Inquiry) : StateM Pool (List (Except Failure Outcome)) := l.mapM (ask sessions)

/-- What a session answers that has an empty cache to itself. -/
def answerAlone (q : Inquiry) : Except Failure Outcome := (ask sessions q clean).1

end Pool

end Dataflow
