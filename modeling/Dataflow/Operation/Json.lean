import Dataflow.Operation.Basic
import Dataflow.Symbol.Json

/-!
# Operations as JSON

An operation is a record of its identifier, its content, its type and its place.
The content is a choice by name. Operands are operations again, so a decoder takes
the depth of the value as the bound of its work.
-/

namespace Dataflow

namespace Literal

/-- A constant as a choice. -/
def toJson : Literal → Json
  | null => .string "Null"
  | bool b => .object [("Bool", .bool b)]
  | integer i => .object [("Integer", .integer i.toInt)]
  | string s => .object [("String", .string s)]

/-- Reads a constant. -/
def ofJson (j : Json) : Decoded Literal := do
  match ← j.asChoice with
  | ("Null", c) => Json.unit .null c
  | ("Bool", c) => return .bool (← Json.required Json.asBool c)
  | ("Integer", c) => return .integer (← Json.required Json.asInt64 c)
  | ("String", c) => return .string (← Json.required Json.asString c)
  | _ => .error .mismatch

end Literal

namespace BinaryOperator

/-- The operator by its name. -/
def toJson (o : BinaryOperator) : Json := .string o.text

/-- Reads an operator. -/
def ofJson (j : Json) : Decoded BinaryOperator := do
  match ← j.asChoice with
  | ("Add", c) => Json.unit .add c
  | ("Subtract", c) => Json.unit .subtract c
  | ("Multiply", c) => Json.unit .multiply c
  | ("Equals", c) => Json.unit .equals c
  | ("NotEquals", c) => Json.unit .notEquals c
  | ("Concatenate", c) => Json.unit .concatenate c
  | _ => .error .mismatch

end BinaryOperator

namespace SourceSpan

/-- The record of a place. -/
def toJson (s : SourceSpan) : Json :=
  .object [("line", Json.ofUInt32 s.line), ("column", Json.ofUInt32 s.column)]

/-- Reads a place. -/
def ofJson (j : Json) : Decoded SourceSpan := do
  match ← j.fields ["line", "column"] with
  | [line, column] => return ⟨← Json.required Json.asUInt32 line, ← Json.required Json.asUInt32 column⟩
  | _ => .error .mismatch

end SourceSpan

/-- An identifier is its number. -/
def OperationId.toJson (id : OperationId) : Json := Json.ofUInt32 id.number

/-- Reads an identifier. -/
def OperationId.ofJson (j : Json) : Decoded OperationId := j.asUInt32.map OperationId.mk

/-- A temporary is its number. -/
def CaptureId.toJson (id : CaptureId) : Json := Json.ofUInt32 id.number

/-- Reads a temporary. -/
def CaptureId.ofJson (j : Json) : Decoded CaptureId := j.asUInt32.map CaptureId.mk

namespace Operation

/-! ### Writing -/

/-- The record of an operation with the given content. -/
def record (info : OperationInfo) (content : Json) : Json :=
  .object [
    ("id", info.id.toJson),
    ("kind", content),
    ("ty", Json.ofOption TypeRef.toJson info.type),
    ("span", info.span.toJson)]

mutual

/-- The record of an operation. -/
def toJson : Operation → Json
  | literal i value => record i (.object [("Literal", value.toJson)])
  | localRef i symbol => record i (.object [("LocalReference", symbol.toJson)])
  | parameterRef i symbol => record i (.object [("ParameterReference", symbol.toJson)])
  | receiverRef i => record i (.string "InstanceReference")
  | fieldRef i owner field =>
    record i (.object [("FieldReference",
      .object [("instance", optionToJson owner), ("field", field.toJson)])])
  | elementRef i array indices =>
    record i (.object [("ElementReference",
      .object [("array", toJson array), ("indices", .array (listToJson indices))])])
  | objectCreation i arguments =>
    record i (.object [("ObjectCreation",
      .object [("arguments", .array (argumentsToJson arguments))])])
  | arrayCreation i dimensions =>
    record i (.object [("ArrayCreation", .object [("dimensions", .array (listToJson dimensions))])])
  | assignment i target value =>
    record i (.object [("Assignment",
      .object [("target", toJson target), ("value", toJson value)])])
  | invocation i method receiver arguments =>
    record i (.object [("Invocation",
      .object [("method", method.toJson), ("instance", optionToJson receiver),
        ("arguments", .array (argumentsToJson arguments))])])
  | binary i operator left right =>
    record i (.object [("Binary",
      .object [("operator", operator.toJson), ("left", toJson left), ("right", toJson right)])])
  | conversion i operand =>
    record i (.object [("Conversion", .object [("operand", toJson operand)])])
  | capture i c value byLocation =>
    record i (.object [("FlowCapture",
      .object [("capture", c.toJson), ("value", toJson value), ("lvalue", .bool byLocation)])])
  | captureRef i c =>
    record i (.object [("FlowCaptureReference", .object [("capture", c.toJson)])])
  | ret i value => record i (.object [("Return", .object [("value", optionToJson value)])])
  | invalid i => record i (.string "Invalid")

/-- An operand that may be absent. -/
def optionToJson : Option Operation → Json
  | none => .null
  | some op => toJson op

/-- A list of operands. -/
def listToJson : List Operation → List Json
  | [] => []
  | op :: ops => toJson op :: listToJson ops

/-- A list of arguments. -/
def argumentsToJson : List (Argument Operation) → List Json
  | [] => []
  | ⟨parameter, value, refKind⟩ :: args =>
    .object [("parameter", Json.ofOption Symbol.toJson parameter), ("value", toJson value),
      ("ref_kind", refKind.toJson)] :: argumentsToJson args

end

/-! ### Reading -/

/-- Reads an argument, given how to read operations. -/
def argumentOfJson (operation : Json → Decoded Operation) (j : Json) : Decoded (Argument Operation) := do
  match ← j.fields ["parameter", "value", "ref_kind"] with
  | [parameter, value, refKind] =>
    return ⟨← Json.optional Symbol.ofJson parameter, ← Json.required operation value,
      ← Json.orElse .value RefKind.ofJson refKind⟩
  | _ => .error .mismatch

/-- Reads the content of an operation, given how to read operations. -/
def contentOfJson (operation : Json → Decoded Operation) (j : Json) :
    Decoded (OperationInfo → Operation) := do
  match ← j.asChoice with
  | ("Literal", c) =>
    let value ← Json.required Literal.ofJson c
    return fun i => .literal i value
  | ("LocalReference", c) =>
    let symbol ← Json.required Symbol.ofJson c
    return fun i => .localRef i symbol
  | ("ParameterReference", c) =>
    let symbol ← Json.required Symbol.ofJson c
    return fun i => .parameterRef i symbol
  | ("InstanceReference", c) =>
    Json.unit () c
    return fun i => .receiverRef i
  | ("FieldReference", c) =>
    match ← Json.fieldsOfChoice ["instance", "field"] c with
    | [owner, field] =>
      let owner ← Json.optional operation owner
      let field ← Json.required Symbol.ofJson field
      return fun i => .fieldRef i owner field
    | _ => .error .mismatch
  | ("ElementReference", c) =>
    match ← Json.fieldsOfChoice ["array", "indices"] c with
    | [array, indices] =>
      let array ← Json.required operation array
      let indices ← Json.required (Json.asList operation) indices
      return fun i => .elementRef i array indices
    | _ => .error .mismatch
  | ("ObjectCreation", c) =>
    match ← Json.fieldsOfChoice ["arguments"] c with
    | [arguments] =>
      let arguments ← Json.orElse [] (Json.asList (argumentOfJson operation)) arguments
      return fun i => .objectCreation i arguments
    | _ => .error .mismatch
  | ("ArrayCreation", c) =>
    match ← Json.fieldsOfChoice ["dimensions"] c with
    | [dimensions] =>
      let dimensions ← Json.orElse [] (Json.asList operation) dimensions
      return fun i => .arrayCreation i dimensions
    | _ => .error .mismatch
  | ("Assignment", c) =>
    match ← Json.fieldsOfChoice ["target", "value"] c with
    | [target, value] =>
      let target ← Json.required operation target
      let value ← Json.required operation value
      return fun i => .assignment i target value
    | _ => .error .mismatch
  | ("Invocation", c) =>
    match ← Json.fieldsOfChoice ["method", "instance", "arguments"] c with
    | [method, receiver, arguments] =>
      let method ← Json.required Symbol.ofJson method
      let receiver ← Json.optional operation receiver
      let arguments ← Json.orElse [] (Json.asList (argumentOfJson operation)) arguments
      return fun i => .invocation i method receiver arguments
    | _ => .error .mismatch
  | ("Binary", c) =>
    match ← Json.fieldsOfChoice ["operator", "left", "right"] c with
    | [operator, left, right] =>
      let operator ← Json.required BinaryOperator.ofJson operator
      let left ← Json.required operation left
      let right ← Json.required operation right
      return fun i => .binary i operator left right
    | _ => .error .mismatch
  | ("Conversion", c) =>
    match ← Json.fieldsOfChoice ["operand"] c with
    | [operand] =>
      let operand ← Json.required operation operand
      return fun i => .conversion i operand
    | _ => .error .mismatch
  | ("FlowCapture", c) =>
    match ← Json.fieldsOfChoice ["capture", "value", "lvalue"] c with
    | [temporary, value, byLocation] =>
      let temporary ← Json.required CaptureId.ofJson temporary
      let value ← Json.required operation value
      let byLocation ← Json.orElse false Json.asBool byLocation
      return fun i => .capture i temporary value byLocation
    | _ => .error .mismatch
  | ("FlowCaptureReference", c) =>
    match ← Json.fieldsOfChoice ["capture"] c with
    | [temporary] =>
      let temporary ← Json.required CaptureId.ofJson temporary
      return fun i => .captureRef i temporary
    | _ => .error .mismatch
  | ("Return", c) =>
    match ← Json.fieldsOfChoice ["value"] c with
    | [value] =>
      let value ← Json.optional operation value
      return fun i => .ret i value
    | _ => .error .mismatch
  | ("Invalid", c) =>
    Json.unit () c
    return fun i => .invalid i
  | _ => .error .mismatch

/-- Reads an operation of at most the given depth. -/
def ofJsonWithin : (depth : Nat) → Json → Decoded Operation
  | 0, _ => .error .mismatch
  | depth + 1, j => do
    match ← j.fields ["id", "kind", "ty", "span"] with
    | [id, kind, type, span] =>
      let id ← Json.required OperationId.ofJson id
      let content ← Json.required (contentOfJson (ofJsonWithin depth)) kind
      let type ← Json.optional TypeRef.ofJson type
      let span ← Json.orElse ⟨0, 0⟩ SourceSpan.ofJson span
      return content ⟨id, type, span⟩
    | _ => .error .mismatch

/-- Reads an operation. -/
def ofJson (j : Json) : Decoded Operation := ofJsonWithin j.depth j

end Operation

end Dataflow
