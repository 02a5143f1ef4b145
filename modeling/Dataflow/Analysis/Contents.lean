import Dataflow.Analysis.Basic

/-!
# Analysis of literal content

Which literals values may be. Operators are evaluated on literals. If classes of copies
are known, a store into an entity is a store into all its copies.
-/

namespace Dataflow

namespace Analysis

namespace ContentAnalysis

/-- The other entities that hold the same value as the target of a store after it. -/
def copiesAfter (ctx : Context Content) (op : Operation) (target : Entity) : List Entity :=
  match ctx.copies.bind (·.valueAt op.id) with
  | some c => if c.contains target then (c.members.erase target).toList else []
  | none => []

/-- A store into an entity and its copies. -/
def assign (ctx : Context Content) (op : Operation) (target : Option Entity) (v : Content) :
    Visit Content Content := do
  match target with
  | some e =>
    let s := State.write Domain.contents e v (← Visit.state)
    Visit.setState ((copiesAfter ctx op e).foldl (fun s copy => s.insert copy v) s)
  | none => pure ()
  return v

end ContentAnalysis

/-- The analysis of literal content. -/
def contents : Analysis Content where
  kind := .valueContent
  domain := Domain.contents
  parameterValue := fun _ => .ok Content.any
  literal := fun _ l => Content.ofLiteral l
  assign := ContentAnalysis.assign
  binary := fun _ _ operator l r => Visit.check (Content.binary operator l r)

end Analysis

end Dataflow
