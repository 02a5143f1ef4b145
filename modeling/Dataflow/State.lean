import Dataflow.Collections.FinMap
import Dataflow.Lattice.Domain

/-!
# Abstract states

A state gives values to the entities that an analysis tracks at one point of the
program. An entity that it does not mention has the domain's default. Merging and
widening work entity by entity and mention every entity that either state does.
-/

namespace Dataflow

/-- The values of the tracked entities. -/
abbrev State (V : Type) := FinMap Entity V

namespace State

variable {V : Type}

/-- The state that tracks nothing. -/
def empty : State V := FinMap.empty

/-- The value of an entity. -/
def valueOr (D : Domain V) (s : State V) (e : Entity) : V := (s.find? e).getD (D.missing e)

/-- The tracked entities. -/
def entities (s : State V) : List Entity := s.keys.toList

/-- What holds if either state may hold. -/
def merge (D : Domain V) (a b : State V) : State V :=
  FinMap.tabulate (a.keys.union b.keys) fun e => D.merge (valueOr D a e) (valueOr D b e)

/-- Merges, and widens every entity whose value that changes. -/
def widen [DecidableEq V] (D : Domain V) (previous next : State V) : State V :=
  FinMap.tabulate (previous.keys.union next.keys) fun e =>
    let old := valueOr D previous e
    let merged := D.merge old (valueOr D next e)
    if old = merged then merged else D.widen old merged

/-- The entities and values by their texts. -/
def texts (D : Domain V) (s : State V) : List String :=
  Text.sorted (s.entries.map fun (e, v) => e.text ++ ": " ++ D.text v)

/-- The text of a state. -/
def text (D : Domain V) (s : State V) : String := "[" ++ Text.commaSeparated (texts D s) ++ "]"

end State

end Dataflow
