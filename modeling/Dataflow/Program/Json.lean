import Dataflow.Program.Basic
import Dataflow.Graph.Json
import Dataflow.Json.Reader

/-!
# Programs as JSON

The types in their order and the bodies in the order of their methods. Of two
bodies of one method, the last one that is read stays.
-/

namespace Dataflow

namespace Program

/-- The record of a program. -/
def toJson (p : Program) : Json :=
  .object [
    ("types", Json.ofList TypeRef.toJson p.types),
    ("methods", Json.ofList Graph.toJson p.graphs)]

/-- Reads a program. The first fault decides which error is reported: an array is read
from left to right, and what stands after its two fields comes last; of an object the
bodies are read before the types. -/
def ofJson (j : Json) : Decoded Program := do
  let readTypes := Json.orElse [] (Json.asList TypeRef.ofJson)
  let readBodies := Json.orElse [] (Json.asList Graph.ofJson)
  match j with
  | .array items =>
    let types ← readTypes items[0]?
    let bodies ← readBodies items[1]?
    if items.length ≤ 2 then return ofGraphs types bodies else .error .mismatch
  | _ =>
    match ← j.members ["types", "methods"] with
    | [types, bodies] =>
      let bodies ← readBodies bodies
      return ofGraphs (← readTypes types) bodies
    | _ => .error .mismatch

/-- Reads the text of a program. -/
def ofText? (text : String) : Option Program :=
  (Json.parse? Json.fileLevels text).bind fun j => (ofJson j).toOption

end Program

end Dataflow
