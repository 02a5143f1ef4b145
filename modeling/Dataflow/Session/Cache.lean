import Dataflow.Analysis.Failure
import Dataflow.Graph.Basic

/-!
# Result caches

A cache computes the result for a key at most once. Failed computations leave nothing
behind, so a later request computes again. Graphs are told apart by where they were
loaded, not by what they hold. Every computation has a number, which tells its result
from equal ones.
-/

namespace Dataflow

/-- Where a graph was loaded. -/
inductive GraphLabel where
  /-- The body of a method in a program. -/
  | body (program : Nat) (method : Symbol)
  /-- A graph by itself. -/
  | single (number : Nat)
  deriving DecidableEq, Repr

/-- A graph that can be told apart from other graphs with the same content. -/
structure LoadedGraph where
  /-- Where it was loaded. -/
  label : GraphLabel
  /-- The graph. -/
  graph : Graph

/-- What a result depends on. The discriminator stands for whatever is not in the
configuration. -/
structure CacheKey (δ : Type) where
  /-- Which analysis. -/
  kind : AnalysisKind
  /-- The body. -/
  graph : GraphLabel
  /-- The configuration. -/
  config : Config
  /-- What else it depends on. -/
  discriminator : δ
  deriving BEq

/-- A result with the number of the computation that it comes from. -/
structure Stored (α : Type) where
  /-- The number of the computation. -/
  number : Nat
  /-- The result. -/
  value : α

/-- The results so far. -/
structure Cache (δ α : Type) where
  /-- The completed results. -/
  entries : List (CacheKey δ × Stored α)
  /-- How many computations were started. -/
  computations : Nat

namespace Cache

variable {δ α : Type}

/-- The cache without results. -/
def empty : Cache δ α := ⟨[], 0⟩

/-- The result for a key. -/
def find? [BEq δ] (key : CacheKey δ) (c : Cache δ α) : Option (Stored α) :=
  (c.entries.find? fun e => e.1 == key).map (·.2)

/-- A computation is started. -/
def begin (c : Cache δ α) : Cache δ α := { c with computations := c.computations + 1 }

/-- The computation that was started last succeeds. -/
def complete (key : CacheKey δ) (value : α) (c : Cache δ α) : Cache δ α :=
  { c with entries := (key, ⟨c.computations, value⟩) :: c.entries }

/-- The number of results. -/
def size (c : Cache δ α) : Nat := c.entries.length

/-- Whether there is no result. -/
def isEmpty (c : Cache δ α) : Bool := c.entries.isEmpty

/-- Forgets all results, but not how many computations there were. -/
def clear (c : Cache δ α) : Cache δ α := { c with entries := [] }

/-- One type of results among those that a cache holds. -/
structure View (α β : Type) where
  /-- A result among all. -/
  write : β → α
  /-- The result, if it is of the type. -/
  read : α → Option β

/-- The result for a key: the one that is there, or that of a computation, which may
change a state besides the cache. A result of another type counts as a mistake. -/
def request [BEq δ] {ε σ β : Type} (view : View α β) (mistyped : AnalysisKind → ε) (key : CacheKey δ)
    (compute : ExceptT ε (StateM σ) β) : ExceptT ε (StateM (Cache δ α × σ)) (Stored β) := fun (c, s) =>
  match c.find? key with
  | some stored =>
    match view.read stored.value with
    | some value => (.ok ⟨stored.number, value⟩, (c, s))
    | none => (.error (mistyped key.kind), (c, s))
  | none =>
    let c := c.begin
    match compute.run s with
    | (.ok value, s) => (.ok ⟨c.computations, value⟩, (c.complete key (view.write value), s))
    | (.error e, s) => (.error e, (c, s))

end Cache

end Dataflow
