import Dataflow.Lattice.PointsTo

/-!
# What entities stand for

Variables, temporaries and receivers belong to one call of a method. Fields and
elements belong to the objects at their owner's locations; if those are not known,
the entity stands for a whole family of storage cells. Two entities may alias if a
write to one may change the other.
-/

namespace Dataflow

namespace Entity

/-! ### Parts -/

/-- A field of the objects at some locations. A static field has no owner. -/
def ofField (field : Symbol) (owner : PointsTo) : Entity :=
  .member field (if field.isStatic then PointsTo.noLocation else owner)

/-- The type of the values it holds. -/
def type : Entity → Option TypeRef
  | localVar symbol _ => symbol.type
  | temporary _ _ type => type
  | receiver method => method.containingType.map TypeRef.reference
  | member field _ => field.type
  | element _ _ type => type

/-- The symbol of a variable or a field. -/
def symbol? : Entity → Option Symbol
  | localVar symbol _ => some symbol
  | member field _ => some field
  | temporary .. | receiver _ | element .. => none

/-- The method that a variable, temporary or receiver belongs to. -/
def method? : Entity → Option Symbol
  | localVar _ method => some method
  | temporary _ method _ => some method
  | receiver method => some method
  | member .. | element .. => none

/-- Where the objects are that a field or an element belongs to. -/
def owner : Entity → PointsTo
  | member _ owner => owner
  | element array _ _ => array
  | localVar .. | temporary .. | receiver _ => PointsTo.noLocation

/-- The positions of an element. -/
def indices : Entity → List ElementIndex
  | element _ indices _ => indices
  | _ => []

/-- The name of the kind of storage. -/
def rootText : Entity → String
  | localVar .. => "Local"
  | temporary .. => "Capture"
  | receiver _ => "This"
  | member .. => "Member"
  | element .. => "Element"

/-- Whether it holds references; without a type it is assumed to. -/
def isReference (e : Entity) : Bool := TypeRef.holdsReference e.type

/-- Whether it belongs to one call of a method. -/
def isMethodLocal : Entity → Bool
  | localVar .. | temporary .. | receiver _ => true
  | member .. | element .. => false

/-- Whether it is a static field. -/
def isStatic : Entity → Bool
  | member field _ => field.isStatic
  | _ => false

/-- Whether it belongs to objects that are not known. -/
def hasUnknownOwner : Entity → Bool
  | member _ owner => !owner.isKnown
  | element array _ _ => !array.isKnown
  | localVar .. | temporary .. | receiver _ => false

/-! ### Aliasing -/

end Entity

/-- Whether two positions may be the same. -/
def ElementIndex.mayEqual : ElementIndex → ElementIndex → Bool
  | constant x, constant y => x == y
  | _, _ => true

namespace Entity

/-- Whether two entities are the same field, or elements whose positions may be the same. -/
def sameKind : Entity → Entity → Bool
  | member f _, member g _ => f == g
  | element _ is _, element _ js _ =>
    is.length == js.length && (is.zip js).all fun (i, j) => i.mayEqual j
  | _, _ => false

/-- Whether a write to the first entity may change the second. A static field has
exactly one cell. -/
def mayAlias (a b : Entity) : Bool :=
  if a = b then true
  else if !a.sameKind b then false
  else if a.isStatic then false
  else if a.hasUnknownOwner || b.hasUnknownOwner then true
  else a.owner.heapLocations.any b.owner.locations.contains

/-- Whether it belongs to an object that only exists inside a method. -/
def mentionsLocalsOf (e : Entity) (method : Symbol) : Bool :=
  e.owner.locations.any fun
    | .entity owner => owner.method? == some method
    | _ => false

end Entity

namespace Location

/-- The location of the object that an entity held in the beginning. The entity must
belong to known objects, so that it names one cell. -/
def ofEntity (e : Entity) : Checked Location :=
  if e.hasUnknownOwner then .error (.unstable e) else .ok (.entity e)

/-- The type of the object at a location. -/
def type : Location → Option TypeRef
  | null | noLocation => none
  | allocation _ _ type _ => type
  | entity e => e.type

/-- Whether the location is where an operation creates an object. -/
def isAllocation : Location → Bool
  | allocation .. => true
  | _ => false

end Location

end Dataflow
