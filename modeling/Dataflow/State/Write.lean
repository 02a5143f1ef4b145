import Dataflow.State

/-!
# Writes

A write to an entity changes everything that may be the same storage. An entity
that names one cell gets the new value; an entity of unknown objects stands for many
cells and only gains it, like every other entity that the written one may alias.
-/

namespace Dataflow

namespace State

variable {V : Type}

/-- The tracked entities that a write to an entity may change, apart from itself. -/
def aliases (e : Entity) (s : State V) : List Entity :=
  s.entities.filter fun a => a ≠ e && e.mayAlias a

/-- Lets an entity hold a value besides what it may hold. -/
def gain (D : Domain V) (v : V) (s : State V) (e : Entity) : State V :=
  s.insert e (D.merge (valueOr D s e) v)

/-- Lets some entities hold a value besides what they may hold. -/
def gainAll (D : Domain V) (v : V) (l : List Entity) (s : State V) : State V :=
  l.foldl (gain D v) s

/-- Writes a value to an entity. -/
def write (D : Domain V) (e : Entity) (v : V) (s : State V) : State V :=
  let s := gainAll D v (aliases e s) s
  if e.hasUnknownOwner then gain D v s e else s.insert e v

end State

end Dataflow
