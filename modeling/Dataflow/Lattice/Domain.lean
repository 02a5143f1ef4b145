import Dataflow.Entity.Aliasing
import Dataflow.Lattice.Content
import Dataflow.Lattice.CopyClass
import Dataflow.Lattice.Taint

/-!
# Domains

What an analysis must know about its abstract values: the extremes, how to merge
and to widen, and which value an entity has that a state does not mention.
-/

namespace Dataflow

/-- How an analysis combines its values. -/
structure Domain (V : Type) where
  /-- The least value. -/
  bottom : V
  /-- The greatest value. -/
  top : V
  /-- What holds if either value may hold. -/
  merge : V → V → V
  /-- Merging in a loop that does not settle. -/
  widen : V → V → V
  /-- The value of an entity that a state does not mention. -/
  missing : Entity → V
  /-- The text of a value. -/
  text : V → String

namespace Domain

/-- The points-to value of an entity that nothing was stored into. Locals and
temporaries are not assigned yet. A receiver is an object of its own; so is what a
field or element of known objects holds in the beginning, if it is not null. -/
def missingPointsTo (e : Entity) : PointsTo :=
  if !e.isReference then PointsTo.noLocation
  else
    match e with
    | .localVar .. | .temporary .. => .undefined
    | .receiver _ => .known [.entity e] .notNull
    | .member .. | .element .. =>
      if e.hasUnknownOwner then .unknown else .known [.entity e] .maybeNull

/-- The domain of points-to values. -/
def pointsTo : Domain PointsTo where
  bottom := PointsTo.bottom
  top := PointsTo.top
  merge := PointsTo.merge
  widen := PointsTo.widen
  missing := missingPointsTo
  text := PointsTo.text

/-- The domain of copy classes. Every entity is at least a copy of itself, and
merging alone settles. -/
def copies : Domain CopyClass where
  bottom := CopyClass.bottom
  top := CopyClass.top
  merge := CopyClass.merge
  widen := CopyClass.merge
  missing := CopyClass.singleton
  text := CopyClass.text

/-- The content of an entity that nothing was stored into. Locals and temporaries
are not assigned yet; anything else may hold anything. -/
def missingContent : Entity → Content
  | .localVar .. | .temporary .. => Content.bottom
  | .receiver _ | .member .. | .element .. => Content.top

/-- The domain of literal contents. -/
def contents : Domain Content where
  bottom := Content.bottom
  top := Content.top
  merge := Content.merge
  widen := Content.widen
  missing := missingContent
  text := Content.text

/-- The domain of taint. Merging alone settles. -/
def taint : Domain Taint where
  bottom := Taint.bottom
  top := Taint.top
  merge := Taint.merge
  widen := Taint.merge
  missing := fun _ => Taint.bottom
  text := Taint.text

end Domain

end Dataflow
