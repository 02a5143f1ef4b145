import Dataflow.Json.Reader
import Dataflow.Operation.Json
import Dataflow.Taint.Hits
import Dataflow.Taint.Rules

/-!
# Taint configurations as JSON

A configuration is a record of three lists, each of which may be left out. The
kind of a source stands beside its names.
-/

namespace Dataflow

namespace SourceRule

/-- The record of a source. -/
def toJson : SourceRule → Json
  | method t m =>
    .object [("kind", .string "method"), ("type_name", .string t), ("method", .string m)]
  | member t m =>
    .object [("kind", .string "member"), ("type_name", .string t), ("member", .string m)]

/-- The kind of a source and the record without it. In an array, the kind comes first. -/
def split : Json → Decoded (String × Json)
  | .object members =>
    match members.filter (·.1 == "kind") with
    | [(_, .string kind)] => .ok (kind, .object (members.filter (·.1 != "kind")))
    | _ => .error .mismatch
  | .array (.string kind :: rest) => .ok (kind, .array rest)
  | _ => .error .mismatch

/-- Reads the two names of a source. -/
def namesOfJson (member : String) (j : Json) : Decoded (String × String) := do
  match ← j.fields ["type_name", member] with
  | [typeName, name] =>
    return (← Json.required Json.asString typeName, ← Json.required Json.asString name)
  | _ => .error .mismatch

/-- Reads a source. All values in it must exist, because the kind may come last. -/
def ofJson (j : Json) : Decoded SourceRule := do
  if !j.isSound then .error .mismatch
  else
    match ← split j with
    | ("method", rest) => return (fun n => .method n.1 n.2) (← namesOfJson "method" rest)
    | ("member", rest) => return (fun n => .member n.1 n.2) (← namesOfJson "member" rest)
    | _ => .error .mismatch

end SourceRule

namespace SanitizerRule

/-- The record of a sanitizer. -/
def toJson (r : SanitizerRule) : Json :=
  .object [("type_name", .string r.typeName), ("method", .string r.method)]

/-- Reads a sanitizer. -/
def ofJson (j : Json) : Decoded SanitizerRule := do
  match ← j.fields ["type_name", "method"] with
  | [typeName, method] =>
    return ⟨← Json.required Json.asString typeName, ← Json.required Json.asString method⟩
  | _ => .error .mismatch

end SanitizerRule

namespace SinkRule

/-- The record of a sink. -/
def toJson (r : SinkRule) : Json :=
  .object [("type_name", .string r.typeName), ("method", .string r.method),
    ("parameters", Json.ofList Json.ofUInt32 r.parameters)]

/-- Reads a sink. -/
def ofJson (j : Json) : Decoded SinkRule := do
  match ← j.fields ["type_name", "method", "parameters"] with
  | [typeName, method, parameters] =>
    return ⟨← Json.required Json.asString typeName, ← Json.required Json.asString method,
      ← Json.orElse [] (Json.asList Json.asUInt32) parameters⟩
  | _ => .error .mismatch

end SinkRule

namespace TaintConfig

/-- The record of a configuration. -/
def toJson (c : TaintConfig) : Json :=
  .object [
    ("sources", Json.ofList SourceRule.toJson c.sources),
    ("sanitizers", Json.ofList SanitizerRule.toJson c.sanitizers),
    ("sinks", Json.ofList SinkRule.toJson c.sinks)]

/-- Reads a configuration. -/
def ofJson (j : Json) : Decoded TaintConfig := do
  match ← j.fields ["sources", "sanitizers", "sinks"] with
  | [sources, sanitizers, sinks] =>
    return ⟨← Json.orElse [] (Json.asList SourceRule.ofJson) sources,
      ← Json.orElse [] (Json.asList SanitizerRule.ofJson) sanitizers,
      ← Json.orElse [] (Json.asList SinkRule.ofJson) sinks⟩
  | _ => .error .mismatch

/-- Reads the text of a configuration. -/
def ofText? (text : String) : Option TaintConfig :=
  (Json.parse? Json.fileLevels text).bind fun j => (ofJson j).toOption

end TaintConfig

namespace SymbolAccess

/-- Reads an access. -/
def ofJson (j : Json) : Decoded SymbolAccess := do
  match ← j.fields ["symbol", "location", "accessing_method"] with
  | [symbol, location, accessingMethod] =>
    return ⟨← Json.required Symbol.ofJson symbol, ← Json.required SourceSpan.ofJson location,
      ← Json.required Symbol.ofJson accessingMethod⟩
  | _ => .error .mismatch

end SymbolAccess

/-- A hit by the texts of its parts. -/
def SinkHit.toJson (h : SinkHit) : Json :=
  .object [
    ("sink", .string h.sink.text), ("operation", h.operation.toJson), ("location", .string h.location.text),
    ("argument", Json.ofUInt32 h.argument),
    ("sources", .array (h.sources.toList.map fun a => .string a.text))]

/-- Reads a hit. -/
def SinkHit.ofJson (j : Json) : Decoded SinkHit := do
  match ← j.members ["sink", "operation", "location", "argument", "sources"] with
  | [sink, operation, location, argument, sources] =>
    let sink ← Json.required Symbol.ofJson sink
    let operation ← Json.required OperationId.ofJson operation
    let location ← Json.required SymbolAccess.ofJson location
    let argument ← Json.required Json.asUInt32 argument
    let sources ← Json.required (Json.asList SymbolAccess.ofJson) sources
    return ⟨sink, operation, location, argument, FinSet.ofList sources⟩
  | _ => .error .mismatch

/-- The hits of a log, each one once. -/
def HitLog.toJson (log : HitLog) : Json :=
  .object [
    ("hits", Json.ofList SinkHit.toJson log.hits), ("len", .integer log.size), ("empty", .bool log.isEmpty)]

end Dataflow
