import Dataflow.Lattice.PointsTo
import Dataflow.Entity.Aliasing
import Dataflow.Operation.Json

/-!
# Entities and points-to values as JSON

All are choices by name and are read through the constructors that keep the rules of
abstract values. An entity contains points-to values, which contain locations, which
contain entities again; so a decoder takes the depth of the value as the bound of its
work.
-/

namespace Dataflow

/-- A computation that may break a rule, as a step of a decoder. -/
def Checked.decoded {α : Type} (r : Checked α) : Decoded α := r.mapError .violated

/-- Reads the nullness of a reference. -/
def Nullness.ofJson (j : Json) : Decoded Nullness := do
  match ← j.asChoice with
  | ("Undefined", c) => Json.unit .undefined c
  | ("Invalid", c) => Json.unit .invalid c
  | ("Null", c) => Json.unit .null c
  | ("NotNull", c) => Json.unit .notNull c
  | ("MaybeNull", c) => Json.unit .maybeNull c
  | _ => .error .mismatch

namespace Location

/-- Reads a location, given how to read entities. -/
def ofJsonWith (entity : Json → Decoded Entity) (j : Json) : Decoded Location := do
  match ← j.asTagged with
  | ("null", _) => return .null
  | ("none", _) => return .noLocation
  | ("alloc", c) =>
    match ← c.members ["operation", "method", "ty", "call_stack"] with
    | [operation, method, type, callSites] =>
      let operation ← Json.required OperationId.ofJson operation
      let method ← Json.required Symbol.ofJson method
      let type ← Json.optional TypeRef.ofJson type
      let callSites ← Json.usually [] (Json.asList OperationId.ofJson) callSites
      return .allocation operation method type callSites
    | _ => .error .mismatch
  | ("entity", c) => (Location.ofEntity (← entity c)).decoded
  | _ => .error .mismatch

end Location

namespace PointsTo

/-- Reads a points-to value, given how to read entities. -/
def ofJsonWith (entity : Json → Decoded Entity) (j : Json) : Decoded PointsTo := do
  let location := Location.ofJsonWith entity
  match ← j.asTagged with
  | ("undefined", _) => return .undefined
  | ("invalid", _) => return .invalid
  | ("unknown", _) => return .unknown
  | ("unknown_null", _) => return .unknownNull
  | ("unknown_not_null", _) => return .unknownNotNull
  | ("no_location", _) => return noLocation
  | ("null_location", _) => return nullLocation
  | ("location", c) =>
    match ← c.members ["location", "may_be_null"] with
    | [l, mayBeNull] =>
      let l ← Json.required location l
      (ofLocation l (← Json.usually false Json.asBool mayBeNull)).decoded
    | _ => .error .mismatch
  | ("locations", c) =>
    match ← c.members ["locations", "null_state"] with
    | [ls, nullness] =>
      let ls ← Json.required (Json.asList location) ls
      (ofLocations ls (← Json.required Nullness.ofJson nullness)).decoded
    | _ => .error .mismatch
  | ("capture", c) => (ofCaptures [← OperationId.ofJson c]).decoded
  | ("captures", c) => (ofCaptures (← c.asList OperationId.ofJson)).decoded
  | ("unknown_with", c) => return unknownWith (← Nullness.ofJson c)
  | _ => .error .mismatch

end PointsTo

/-- Reads a position, given how to read entities. -/
def ElementIndex.ofJsonWith (entity : Json → Decoded Entity) (j : Json) : Decoded ElementIndex := do
  match ← j.asTagged with
  | ("constant", c) => return .constant (← c.asInt64)
  | ("entity", c) => return .entity (← entity c)
  | ("operation", c) => return .operation (← OperationId.ofJson c)
  | _ => .error .mismatch

namespace Entity

/-- Reads an entity by its name and content, given how to read the entities in it. -/
def contentOfJson (entity : Json → Decoded Entity) (tag : String) (c : Json) : Decoded Entity := do
  let pointsTo := PointsTo.ofJsonWith entity
  match tag with
  | "local" =>
    match ← c.members ["symbol", "method"] with
    | [symbol, method] =>
      let symbol ← Json.required Symbol.ofJson symbol
      return .localVar symbol (← Json.required Symbol.ofJson method)
    | _ => .error .mismatch
  | "capture" =>
    match ← c.members ["capture", "method", "ty"] with
    | [capture, method, type] =>
      let capture ← Json.required CaptureId.ofJson capture
      let method ← Json.required Symbol.ofJson method
      return .temporary capture method (← Json.optional TypeRef.ofJson type)
    | _ => .error .mismatch
  | "this" =>
    match ← c.members ["method"] with
    | [method] => return .receiver (← Json.required Symbol.ofJson method)
    | _ => .error .mismatch
  | "member" =>
    match ← c.members ["field", "instance"] with
    | [field, owner] =>
      let field ← Json.required Symbol.ofJson field
      return ofField field (← Json.required pointsTo owner)
    | _ => .error .mismatch
  | "element" =>
    match ← c.members ["instance", "indices", "ty"] with
    | [array, indices, type] =>
      let array ← Json.required pointsTo array
      let indices ← Json.usually [] (Json.asList (ElementIndex.ofJsonWith entity)) indices
      return .element array indices (← Json.optional TypeRef.ofJson type)
    | _ => .error .mismatch
  | _ => .error .mismatch

/-- Reads an entity of at most the given depth. -/
def ofJsonWithin : (depth : Nat) → Json → Decoded Entity
  | 0, _ => .error .mismatch
  | depth + 1, j => do
    let (tag, c) ← j.asTagged
    contentOfJson (ofJsonWithin depth) tag c

/-- Reads an entity. -/
def ofJson (j : Json) : Decoded Entity := ofJsonWithin j.depth j

end Entity

/-- Reads a location. -/
def Location.ofJson (j : Json) : Decoded Location := ofJsonWith Entity.ofJson j

/-- Reads a points-to value. -/
def PointsTo.ofJson (j : Json) : Decoded PointsTo := ofJsonWith Entity.ofJson j

/-- Reads a position. -/
def ElementIndex.ofJson (j : Json) : Decoded ElementIndex := ofJsonWith Entity.ofJson j

/-! ### Writing -/

/-- The text of a position with its kind. -/
def ElementIndex.label : ElementIndex → String
  | .constant i => "constant " ++ toString i.toInt
  | .entity e => "entity " ++ e.text
  | .operation op => "operation " ++ op.text

/-- An entity by its parts and what is known about it. -/
def Entity.toJson (e : Entity) : Json :=
  .object [
    ("text", .string e.text), ("root", .string e.rootText),
    ("indices", .array (e.indices.map fun i => .string i.label)), ("instance", .string e.owner.text),
    ("ty", Json.ofOption TypeRef.toJson e.type),
    ("symbol", Json.ofOption (fun s => .string s.text) e.symbol?),
    ("method", Json.ofOption (fun s => .string s.text) e.method?), ("reference", .bool e.isReference),
    ("local", .bool e.isMethodLocal), ("static", .bool e.isStatic),
    ("unknown_instance", .bool e.hasUnknownOwner)]

/-- A location by its text and what is known about it. -/
def Location.toJson (l : Location) : Json :=
  .object [
    ("text", .string l.text), ("null", .bool (decide (l = .null))),
    ("none", .bool (decide (l = .noLocation))), ("sentinel", .bool l.isSentinel),
    ("ty", Json.ofOption TypeRef.toJson l.type)]

/-- A points-to value by its parts. -/
def PointsTo.toJson (v : PointsTo) : Json :=
  let texts (l : List Location) : Json := .array ((Text.sorted (l.map (·.text))).map .string)
  .object [
    ("text", .string v.text), ("kind", .string v.kindText), ("null_state", .string v.nullness.text),
    ("locations", texts v.locations), ("captures", Json.ofList OperationId.toJson v.captureSet),
    ("heap", texts v.heapLocations), ("known_locations", .bool v.isKnown), ("unknown", .bool v.isUnknown)]

end Dataflow
