import Dataflow.Graph.Basic
import Dataflow.Operation.Json

/-!
# Blocks and graphs as JSON

Every field is written. A graph that is read is checked, so that each graph in
memory passes the rules of graphs.
-/

namespace Dataflow

/-- A block's name is its position. -/
def BlockId.toJson (b : BlockId) : Json := Json.ofUInt64 b.index

/-- Reads a position. -/
def BlockId.ofJson (j : Json) : Decoded BlockId := j.asUInt64.map BlockId.mk

namespace BlockKind

/-- The role by its name. -/
def toJson (k : BlockKind) : Json := .string k.text

/-- Reads a role. -/
def ofJson (j : Json) : Decoded BlockKind := do
  match ← j.asChoice with
  | ("Entry", c) => Json.unit .entry c
  | ("Block", c) => Json.unit .block c
  | ("Exit", c) => Json.unit .exit c
  | _ => .error .mismatch

end BlockKind

namespace BranchKind

/-- The kind by its name. -/
def toJson (k : BranchKind) : Json := .string k.text

/-- Reads a kind. -/
def ofJson (j : Json) : Decoded BranchKind := do
  match ← j.asChoice with
  | ("Regular", c) => Json.unit .regular c
  | ("WhenTrue", c) => Json.unit .whenTrue c
  | ("WhenFalse", c) => Json.unit .whenFalse c
  | _ => .error .mismatch

end BranchKind

namespace Branch

/-- The record of an edge. -/
def toJson (b : Branch) : Json :=
  .object [("destination", b.destination.toJson), ("kind", b.kind.toJson)]

/-- Reads an edge. -/
def ofJson (j : Json) : Decoded Branch := do
  match ← j.fields ["destination", "kind"] with
  | [destination, kind] =>
    return ⟨← Json.required BlockId.ofJson destination, ← Json.orElse .regular BranchKind.ofJson kind⟩
  | _ => .error .mismatch

end Branch

namespace Block

/-- The record of a block. -/
def toJson (b : Block) : Json :=
  .object [
    ("id", b.id.toJson),
    ("kind", b.kind.toJson),
    ("operations", Json.ofList Operation.toJson b.operations),
    ("branch_value", Json.ofOption Operation.toJson b.condition),
    ("successors", Json.ofList Branch.toJson b.branches),
    ("leaving_scope", Json.ofList Symbol.toJson b.leavingScope)]

/-- Reads a block. -/
def ofJson (j : Json) : Decoded Block := do
  match ← j.fields ["id", "kind", "operations", "branch_value", "successors", "leaving_scope"] with
  | [id, kind, operations, condition, branches, leavingScope] =>
    return {
      id := ← Json.required BlockId.ofJson id
      kind := ← Json.required BlockKind.ofJson kind
      operations := ← Json.orElse [] (Json.asList Operation.ofJson) operations
      condition := ← Json.optional Operation.ofJson condition
      branches := ← Json.orElse [] (Json.asList Branch.ofJson) branches
      leavingScope := ← Json.orElse [] (Json.asList Symbol.ofJson) leavingScope }
  | _ => .error .mismatch

end Block

namespace Graph

/-- The record of a graph. -/
def toJson (g : Graph) : Json :=
  .object [
    ("owner", g.owner.toJson),
    ("parameters", Json.ofList Symbol.toJson g.parameters),
    ("blocks", Json.ofList Block.toJson g.blocks)]

/-- Reads a graph and checks it. -/
def ofJson (j : Json) : Decoded Graph := do
  match ← j.fields ["owner", "parameters", "blocks"] with
  | [owner, parameters, blocks] =>
    let owner ← Json.required Symbol.ofJson owner
    let parameters ← Json.orElse [] (Json.asList Symbol.ofJson) parameters
    let blocks ← Json.required (Json.asList Block.ofJson) blocks
    (ofBlocks? owner parameters blocks).mapError .malformed
  | _ => .error .mismatch

end Graph

end Dataflow
