import Dataflow.Collections.FinMap
import Dataflow.Operation.Basic

/-!
# Sink hits

A hit is a sensitive argument that untrusted data reaches, with the places where
the data may come from. Hits are kept by the call site of the analysed method at
which they were found. A call site that is visited again first withdraws what it
found before, so that only the last visit counts. Hits of the same argument of the
same call are one hit, with the sources of all.
-/

namespace Dataflow

/-- A read or write of a symbol. -/
structure SymbolAccess where
  /-- The symbol. -/
  symbol : Symbol
  /-- Where it is accessed. -/
  location : SourceSpan
  /-- The method whose body accesses it. -/
  accessingMethod : Symbol
  deriving DecidableEq, Repr

namespace SymbolAccess

instance : Ord SymbolAccess :=
  ⟨compareLex (compareOn symbol) (compareLex (compareOn location) (compareOn accessingMethod))⟩

instance : Std.TransOrd SymbolAccess :=
  inferInstanceAs (Std.TransCmp <|
    compareLex (compareOn symbol) (compareLex (compareOn location) (compareOn accessingMethod)))

instance : Std.LawfulEqOrd SymbolAccess :=
  lawfulEqOrd_of fun a b h => by
    obtain ⟨h₁, h⟩ := compareLex_eq_iff.1 h
    obtain ⟨h₂, h₃⟩ := compareLex_eq_iff.1 h
    cases a
    cases b
    simp_all [compareOn_eq_iff]

/-- The text of an access. -/
def text (a : SymbolAccess) : String :=
  a.symbol.text ++ " in " ++ a.accessingMethod.text ++ " at " ++ toString a.location.line ++ ":" ++
    toString a.location.column

end SymbolAccess

/-- Untrusted data at a sensitive argument. -/
structure SinkHit where
  /-- The method that is called. -/
  sink : Symbol
  /-- The call. -/
  operation : OperationId
  /-- Where the call stands. -/
  location : SymbolAccess
  /-- The position of the argument. -/
  argument : UInt32
  /-- Where the data may come from. -/
  sources : FinSet SymbolAccess
  deriving DecidableEq

/-- Which hits are one: the calling method, the call and the position of the argument. -/
abbrev HitKey := Symbol × OperationId × UInt32

/-- What a hit is known by. -/
def SinkHit.key (h : SinkHit) : HitKey := (h.location.accessingMethod, h.operation, h.argument)

/-- Hits, each one once. -/
abbrev HitSet := FinMap HitKey SinkHit

/-- Adds a hit, or its sources to the hit that is the same. -/
def HitSet.add (hits : HitSet) (hit : SinkHit) : HitSet :=
  match hits.find? hit.key with
  | some old => hits.insert hit.key { old with sources := old.sources.union hit.sources }
  | none => hits.insert hit.key hit

/-- The hits of a method body, by the call site that they were found at. -/
structure HitLog where
  /-- The hits of each call site. -/
  sites : FinMap OperationId HitSet
  deriving DecidableEq

namespace HitLog

/-- The log without hits. -/
def empty : HitLog := ⟨FinMap.empty⟩

instance : Inhabited HitLog := ⟨empty⟩

/-- Adds a hit to a call site. -/
def record (log : HitLog) (site : OperationId) (hit : SinkHit) : HitLog :=
  ⟨log.sites.insert site (((log.sites.find? site).getD FinMap.empty).add hit)⟩

/-- Drops the hits of a call site. -/
def withdraw (log : HitLog) (site : OperationId) : HitLog := ⟨log.sites.erase site⟩

/-- Every hit once, with the sources of all call sites. -/
def merged (log : HitLog) : HitSet := (log.sites.values.flatMap (·.values)).foldl HitSet.add FinMap.empty

/-- Every hit once, in the order of keys. -/
def hits (log : HitLog) : List SinkHit := log.merged.values

/-- Adds all hits of another log to a call site. -/
def absorb (log : HitLog) (site : OperationId) (other : HitLog) : HitLog :=
  other.hits.foldl (fun log hit => log.record site hit) log

/-- The number of hits. -/
def size (log : HitLog) : Nat := log.hits.length

/-- Whether there is no hit. -/
def isEmpty (log : HitLog) : Bool := log.sites.values.all (·.isEmpty)

end HitLog

end Dataflow
