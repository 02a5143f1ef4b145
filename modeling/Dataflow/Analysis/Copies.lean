import Dataflow.Analysis.Basic

/-!
# Copy analysis

Which entities hold the same value. Every tracked entity is in a class, and all members
of a class have that class as their value. A write takes the entity out of its class and
puts it into the class of the value. An entity of unknown objects stands for many cells
and is alone.
-/

namespace Dataflow

namespace Analysis

namespace CopyAnalysis

/-- The class of an entity. -/
def classOf (e : Entity) (s : State CopyClass) : CopyClass := State.valueOr Domain.copies s e

/-- Gives all members of a class that class. -/
def assignAll (members : FinSet Entity) (c : CopyClass) (s : State CopyClass) : State CopyClass :=
  members.toList.foldl (fun s m => s.insert m c) s

/-- Leaves the other members of an entity's class to themselves. -/
def leaveOthers (e : Entity) (s : State CopyClass) : Checked (State CopyClass) := do
  let c := classOf e s
  if c.isKnown && c.contains e && 1 < c.members.size then
    let rest ← c.remove e
    return assignAll rest.members rest s
  else return s

/-- Makes an entity a class of its own. -/
def detach (e : Entity) (s : State CopyClass) : Checked (State CopyClass) := do
  return (← leaveOthers e s).insert e (CopyClass.singleton e)

/-- Makes each of some entities a class of its own. -/
def detachAll (l : List Entity) (s : State CopyClass) : Checked (State CopyClass) :=
  l.foldlM (fun s e => detach e s) s

/-- The entity of a class that stands for it: the one with the least text. -/
def anchor? (e : Entity) (c : CopyClass) : Option Entity :=
  let step : Option Entity → Entity → Option Entity
    | none, m => some m
    | some a, m => if m.text < a.text then some m else some a
  (c.members.erase e).toList.foldl step none

/-- Puts an entity into the class of another one. -/
def join (e anchor : Entity) (s : State CopyClass) : Checked (State CopyClass) := do
  let members := (classOf anchor s).members
  if members.isEmpty then return s
  let c ← CopyClass.ofMembers (members.insert e)
  return assignAll c.members c s

/-- Writes a value to an entity. What may be the same storage holds the value or not; so
nothing is known about its copies. -/
def write (e : Entity) (v : CopyClass) (s : State CopyClass) : Checked (State CopyClass) := do
  let anchor := anchor? e v
  let s ← detach e s
  let s ← detachAll (State.aliases e s) s
  if e.hasUnknownOwner then return s
  match anchor with
  | some a => join e a s
  | none => return s

/-- Ends the scope of an entity. -/
def forget (e : Entity) (s : State CopyClass) : Checked (State CopyClass) := do
  return (← detach e s).erase e

/-- A store, whose value is the class that the target then has. -/
def assign (target : Option Entity) (v : CopyClass) : Visit CopyClass CopyClass := do
  match target with
  | some e =>
    Visit.update (write e v)
    return classOf e (← Visit.state)
  | none => return v

end CopyAnalysis

/-- The copy analysis. -/
def copies : Analysis CopyClass where
  kind := .copy
  domain := Domain.copies
  unknownValue := fun _ => .unknown
  escapedValue := CopyClass.singleton
  crossesCalls := false
  write := CopyAnalysis.write
  forget := CopyAnalysis.forget
  assign := fun _ _ target v => CopyAnalysis.assign target v

end Analysis

end Dataflow
