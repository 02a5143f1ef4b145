import Dataflow.Entity.Basic

/-!
# The text of entities, locations and points-to values

Sets are written in the order of the texts of their members, so that the text
does not depend on the order in which they are kept.
-/

namespace Dataflow

mutual

/-- The text of an entity. A static field is written with its type, any other field
behind the objects it belongs to. -/
def Entity.text : Entity → String
  | .localVar symbol _ => symbol.name
  | .temporary capture _ _ => capture.text
  | .receiver _ => "this"
  | .member field owner => if field.isStatic then field.text else PointsTo.text owner ++ "." ++ field.name
  | .element array indices _ =>
    PointsTo.text array ++
      (if indices.isEmpty then ""
        else "[" ++ Text.commaSeparated (ElementIndex.texts indices) ++ "]")

/-- The text of a position. -/
def ElementIndex.text : ElementIndex → String
  | .constant value => toString value.toInt
  | .entity e => Entity.text e
  | .operation id => id.text

/-- The texts of positions. -/
def ElementIndex.texts : List ElementIndex → List String
  | [] => []
  | i :: is => ElementIndex.text i :: ElementIndex.texts is

/-- The text of a location. An allocation shows the chain of calls from the inside. -/
def Location.text : Location → String
  | .null => "null"
  | .noLocation => "<none>"
  | .allocation operation _ type callSites =>
    "new " ++ TypeRef.nameOrUnknown type ++ "@" ++ operation.text ++
      String.join (callSites.reverse.map fun c => "<-" ++ c.text)
  | .entity e => "*" ++ Entity.text e

/-- The texts of locations. -/
def Location.texts : List Location → List String
  | [] => []
  | l :: ls => Location.text l :: Location.texts ls

/-- The text of a points-to value. -/
def PointsTo.text : PointsTo → String
  | .undefined => "Undefined"
  | .invalid => "Invalid"
  | .unknown => "Unknown"
  | .unknownNull => "UnknownNull"
  | .unknownNotNull => "UnknownNotNull"
  | .known locations nullness =>
    "\x7b" ++ Text.commaSeparated (Text.sorted (Location.texts locations)) ++ "\x7d (" ++
      nullness.text ++ ")"
  | .captures operations =>
    "&\x7b" ++ Text.commaSeparated (operations.map (·.text)) ++ "\x7d"

end

end Dataflow
