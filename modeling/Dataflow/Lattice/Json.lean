import Dataflow.Entity.Json
import Dataflow.Lattice.Content
import Dataflow.Lattice.CopyClass
import Dataflow.Lattice.Taint

/-!
# Abstract values as JSON

Classes of copies, literal contents and taint are choices by name and are read through
the constructors that keep their rules.
-/

namespace Dataflow

/-- Reads a class of copies. -/
def CopyClass.ofJson (j : Json) : Decoded CopyClass := do
  match ← j.asTagged with
  | ("not_applicable", _) => return .notApplicable
  | ("invalid", _) => return .invalid
  | ("unknown", _) => return .unknown
  | ("singleton", c) => return singleton (← Entity.ofJson c)
  | ("known", c) => (ofMembers (FinSet.ofList (← c.asList Entity.ofJson))).decoded
  | _ => .error .mismatch

/-- Reads whether a value may be something other than the literals listed. -/
def NonLiteral.ofJson (j : Json) : Decoded NonLiteral := do
  match ← j.asChoice with
  | ("Undefined", c) => Json.unit .undefined c
  | ("Invalid", c) => Json.unit .invalid c
  | ("No", c) => Json.unit .no c
  | ("Maybe", c) => Json.unit .maybe c
  | _ => .error .mismatch

/-- Reads the literals that a value may be. -/
def Content.ofJson (j : Json) : Decoded Content := do
  match ← j.asTagged with
  | ("undefined", _) => return undefined
  | ("invalid", _) => return invalid
  | ("any", _) => return any
  | ("literal", c) => return ofLiteral (← Literal.ofJson c)
  | ("literals", c) =>
    match ← c.members ["literals", "state"] with
    | [literals, state] =>
      let literals ← Json.required (Json.asList Literal.ofJson) literals
      (ofLiterals (FinSet.ofList literals) (← Json.required NonLiteral.ofJson state)).decoded
    | _ => .error .mismatch
  | _ => .error .mismatch

/-- Reads a taint. -/
def Taint.ofJson (j : Json) : Decoded Taint := do
  match ← j.asChoice with
  | ("NotTainted", c) => Json.unit .notTainted c
  | ("Tainted", c) => Json.unit .tainted c
  | ("Unknown", c) => Json.unit .unknown c
  | _ => .error .mismatch

/-- A class of copies by its parts. -/
def CopyClass.toJson (c : CopyClass) : Json :=
  .object [
    ("text", .string c.text), ("kind", .string c.kindText),
    ("entities", .array ((Text.sorted (c.members.toList.map (·.text))).map .string)),
    ("known", .bool c.isKnown)]

/-- Literal content by its parts. -/
def Content.toJson (c : Content) : Json :=
  .object [
    ("text", .string c.text), ("state", .string c.state.text),
    ("literals", Json.ofList Literal.toJson c.literals.toList), ("is_literal", .bool c.isLiteral),
    ("single", Json.ofOption Literal.toJson c.single?)]

end Dataflow
