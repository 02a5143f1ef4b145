import Dataflow.Collections.FinMap
import Dataflow.Entity.Aliasing

/-!
# Resolving operations to entities

A resolver names the storage that the references of one method body read and
write. It remembers what it answered, by operation, owner and positions: a body
that uses one identifier for two operations gets the answer of the first. Only
temporaries are resolved anew each time, because a temporary that captured the
location of other storage stands for that storage.
-/

namespace Dataflow

/-- What an answer is remembered by. -/
structure ResolverKey where
  /-- The operation. -/
  operation : OperationId
  /-- Where the objects are that it belongs to. -/
  owner : Option PointsTo
  /-- The positions of an element. -/
  indices : List ElementIndex
  deriving DecidableEq

/-- The names of storage in one method body. -/
structure Resolver where
  /-- The method. -/
  method : Symbol
  /-- Whether fields and elements of unknown objects have names. -/
  tracksUnknown : Bool
  /-- The answers so far, the last one first. -/
  answers : List (ResolverKey × Option Entity)
  /-- The storage whose location a temporary captured. -/
  bindings : FinMap CaptureId Entity

namespace Resolver

/-- A resolver without answers and bindings. -/
def start (method : Symbol) (tracksUnknown : Bool) : Resolver := ⟨method, tracksUnknown, [], FinMap.empty⟩

/-- The entity of a local or parameter. -/
def localVar (r : Resolver) (symbol : Symbol) : Entity := .localVar symbol r.method

/-- The entity of the receiver. -/
def receiver (r : Resolver) : Entity := .receiver r.method

/-- Lets a temporary stand for storage. -/
def bind (capture : CaptureId) (target : Entity) (r : Resolver) : Resolver :=
  { r with bindings := r.bindings.insert capture target }

/-- The owner of a field or an element, or none if it is to have no name. -/
def owner? (r : Resolver) (owner : Option PointsTo) : Option PointsTo :=
  let owner := owner.getD .unknown
  if owner.isKnown || r.tracksUnknown then some owner else none

/-- The entity of a temporary. -/
def temporary (r : Resolver) (capture : CaptureId) (type : Option TypeRef) : Entity :=
  (r.bindings.find? capture).getD (.temporary capture r.method type)

/-- The entity of an operation, without regard to earlier answers. -/
def entity? (r : Resolver) (op : Operation) (owner : Option PointsTo) (indices : List ElementIndex) :
    Option Entity :=
  match op with
  | .localRef _ symbol | .parameterRef _ symbol => some (r.localVar symbol)
  | .receiverRef _ => some r.receiver
  | .captureRef info capture | .capture info capture _ _ => some (r.temporary capture info.type)
  | .fieldRef _ _ field =>
    if field.isStatic then some (Entity.ofField field PointsTo.noLocation)
    else (r.owner? owner).map (Entity.ofField field)
  | .elementRef info _ _ => (r.owner? owner).map fun array => .element array indices info.type
  | _ => none

/-- Whether the answer for an operation may change from visit to visit. -/
def isVolatile : Operation → Bool
  | .capture .. | .captureRef .. => true
  | _ => false

/-- The entity of an operation. `owner` and `indices` describe the objects and the
positions that it belongs to, if it is a field or an element. -/
def resolve (r : Resolver) (op : Operation) (owner : Option PointsTo) (indices : List ElementIndex) :
    Option Entity × Resolver :=
  if isVolatile op then (r.entity? op owner indices, r)
  else
    let key : ResolverKey := ⟨op.id, owner, indices⟩
    match r.answers.lookup key with
    | some answer => (answer, r)
    | none =>
      let answer := r.entity? op owner indices
      (answer, { r with answers := (key, answer) :: r.answers })

end Resolver

end Dataflow
