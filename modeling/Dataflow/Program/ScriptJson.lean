import Dataflow.Program.Json
import Dataflow.Program.Script

/-!
# Assembly scripts as JSON

Recipes and steps are choices by name. A recipe contains recipes, so its decoder takes
the depth of the value as the bound of its work.
-/

namespace Dataflow

namespace Recipe

/-- Reads an argument: a value, and the parameter it is bound to if there is one. -/
def argumentOfJson (recipe : Json → Decoded Recipe) (j : Json) : Decoded (Option Symbol × Recipe) := do
  match ← j.members ["value", "parameter"] with
  | [value, parameter] =>
    let value ← Json.required recipe value
    return (← Json.optional Symbol.ofJson parameter, value)
  | _ => .error .mismatch

/-- Reads a recipe by its name and content, given how to read the recipes in it. -/
def contentOfJson (recipe : Json → Decoded Recipe) (tag : String) (c : Json) : Decoded Recipe := do
  let argument := argumentOfJson recipe
  match tag with
  | "null" => return .literal .null
  | "int" => return .literal (.integer (← c.asInt64))
  | "string" => return .literal (.string (← c.asString))
  | "bool" => return .literal (.bool (← c.asBool))
  | "local" => return .localRef (← Symbol.ofJson c)
  | "parameter" => return .parameterRef (← Symbol.ofJson c)
  | "this" => return .receiverRef (← TypeRef.ofJson c)
  | "field" =>
    match ← c.members ["instance", "field"] with
    | [owner, field] =>
      let owner ← Json.optional recipe owner
      return .fieldRef owner (← Json.required Symbol.ofJson field)
    | _ => .error .mismatch
  | "element" =>
    match ← c.members ["array", "indices", "ty"] with
    | [array, indices, type] =>
      let array ← Json.required recipe array
      let indices ← Json.usually [] (Json.asList recipe) indices
      return .elementRef array indices (← Json.optional TypeRef.ofJson type)
    | _ => .error .mismatch
  | "new" =>
    match ← c.members ["ty", "arguments"] with
    | [type, arguments] =>
      let type ← Json.required TypeRef.ofJson type
      return .objectCreation type (← Json.usually [] (Json.asList argument) arguments)
    | _ => .error .mismatch
  | "new_array" =>
    match ← c.members ["ty", "dimensions"] with
    | [type, dimensions] =>
      let type ← Json.required TypeRef.ofJson type
      return .arrayCreation type (← Json.usually [] (Json.asList recipe) dimensions)
    | _ => .error .mismatch
  | "assign" =>
    match ← c.members ["target", "value"] with
    | [target, value] =>
      let target ← Json.required recipe target
      return .assignment target (← Json.required recipe value)
    | _ => .error .mismatch
  | "call" =>
    match ← c.members ["instance", "method", "arguments"] with
    | [receiver, method, arguments] =>
      let receiver ← Json.optional recipe receiver
      let method ← Json.required Symbol.ofJson method
      return .invocation receiver method (← Json.usually [] (Json.asList argument) arguments)
    | _ => .error .mismatch
  | "binary" =>
    match ← c.members ["operator", "left", "right", "ty"] with
    | [operator, left, right, type] =>
      let operator ← Json.required BinaryOperator.ofJson operator
      let left ← Json.required recipe left
      let right ← Json.required recipe right
      return .binary operator left right (← Json.optional TypeRef.ofJson type)
    | _ => .error .mismatch
  | "convert" =>
    match ← c.members ["operand", "ty"] with
    | [operand, type] =>
      let operand ← Json.required recipe operand
      return .conversion operand (← Json.optional TypeRef.ofJson type)
    | _ => .error .mismatch
  | "capture" =>
    match ← c.members ["value", "lvalue"] with
    | [value, byLocation] =>
      let value ← Json.required recipe value
      return .capture value (← Json.usually false Json.asBool byLocation)
    | _ => .error .mismatch
  | "capture_reference" =>
    match ← c.members ["capture", "ty"] with
    | [temporary, type] =>
      let temporary ← Json.required CaptureId.ofJson temporary
      return .captureRef temporary (← Json.optional TypeRef.ofJson type)
    | _ => .error .mismatch
  | "return" =>
    match c with
    | .null => return .ret none
    | c =>
      match ← c.members ["value"] with
      | [value] => return .ret (← Json.optional recipe value)
      | _ => .error .mismatch
  | "invalid" => return .invalid
  | "at_line" =>
    match ← c.members ["line", "op"] with
    | [line, op] =>
      let line ← Json.required Json.asUInt32 line
      return .atLine line (← Json.required recipe op)
    | _ => .error .mismatch
  | _ => .error .mismatch

/-- Reads a recipe of at most the given depth. -/
def ofJsonWithin : (depth : Nat) → Json → Decoded Recipe
  | 0, _ => .error .mismatch
  | depth + 1, j => do
    let (tag, c) ← j.asTagged
    contentOfJson (ofJsonWithin depth) tag c

/-- Reads a recipe. -/
def ofJson (j : Json) : Decoded Recipe := ofJsonWithin j.depth j

end Recipe

/-- Reads a step. -/
def AssemblyStep.ofJson (j : Json) : Decoded AssemblyStep := do
  match ← j.asTagged with
  | ("add_block", _) => return .addBlock
  | ("push", c) =>
    match ← c.members ["block", "op"] with
    | [block, op] =>
      let block ← Json.required BlockId.ofJson block
      return .push block (← Json.required Recipe.ofJson op)
    | _ => .error .mismatch
  | ("goto", c) =>
    match ← c.members ["from", "to"] with
    | [source, target] =>
      let source ← Json.required BlockId.ofJson source
      return .goto source (← Json.required BlockId.ofJson target)
    | _ => .error .mismatch
  | ("branch", c) =>
    match ← c.members ["from", "condition", "when_true", "when_false"] with
    | [source, condition, whenTrue, whenFalse] =>
      let source ← Json.required BlockId.ofJson source
      let condition ← Json.required Recipe.ofJson condition
      let whenTrue ← Json.required BlockId.ofJson whenTrue
      return .branch source condition whenTrue (← Json.required BlockId.ofJson whenFalse)
    | _ => .error .mismatch
  | ("leave_scope", c) =>
    match ← c.members ["block", "locals"] with
    | [block, locals] =>
      let block ← Json.required BlockId.ofJson block
      return .leaveScope block (← Json.required (Json.asList Symbol.ofJson) locals)
    | _ => .error .mismatch
  | _ => .error .mismatch

end Dataflow
