import Dataflow.Config.Basic
import Dataflow.Json.Decode

/-!
# Configurations as JSON

Every field may be left out; the usual value takes its place. A filter has no JSON
form.
-/

namespace Dataflow

/-- The name of an analysis in JSON. -/
def AnalysisKind.name : AnalysisKind → String
  | pointsTo => "PointsTo"
  | copy => "Copy"
  | valueContent => "ValueContent"
  | taintedData => "TaintedData"

/-- Reads the name of an analysis. -/
def AnalysisKind.ofJson (j : Json) : Decoded AnalysisKind := do
  match ← j.asChoice with
  | ("PointsTo", c) => Json.unit .pointsTo c
  | ("Copy", c) => Json.unit .copy c
  | ("ValueContent", c) => Json.unit .valueContent c
  | ("TaintedData", c) => Json.unit .taintedData c
  | _ => .error .mismatch

namespace CallHandling

/-- The name of a handling in JSON. -/
def name : CallHandling → String
  | none => "none"
  | summaries => "non_context_sensitive"
  | inContext => "context_sensitive"

/-- The handling by its name. -/
def toJson (h : CallHandling) : Json := .string h.name

/-- Reads a handling. -/
def ofJson (j : Json) : Decoded CallHandling := do
  match ← j.asChoice with
  | ("none", c) => Json.unit .none c
  | ("non_context_sensitive", c) => Json.unit .summaries c
  | ("context_sensitive", c) => Json.unit .inContext c
  | _ => .error .mismatch

end CallHandling

namespace CallConfig

/-- The record of how calls are followed. -/
def toJson (c : CallConfig) : Json :=
  .object [
    ("kind", c.handling.toJson),
    ("max_call_chain", Json.ofUInt64 c.maxCallChain),
    ("max_nodes", Json.ofUInt64 c.maxNodes)]

/-- Reads how calls are followed. -/
def ofJson (j : Json) : Decoded CallConfig := do
  let usual := CallConfig.usual .none
  match ← j.fields ["kind", "max_call_chain", "max_nodes"] with
  | [handling, maxCallChain, maxNodes] =>
    return ⟨← Json.orElse usual.handling CallHandling.ofJson handling,
      ← Json.orElse usual.maxCallChain Json.asUInt64 maxCallChain,
      ← Json.orElse usual.maxNodes Json.asUInt64 maxNodes⟩
  | _ => .error .mismatch

end CallConfig

namespace PointsToUse

/-- The name of a use in JSON. -/
def name : PointsToUse → String
  | none => "none"
  | partialOnly => "partial_only"
  | complete => "complete"

/-- The use by its name. -/
def toJson (u : PointsToUse) : Json := .string u.name

/-- Reads a use. -/
def ofJson (j : Json) : Decoded PointsToUse := do
  match ← j.asChoice with
  | ("none", c) => Json.unit .none c
  | ("partial_only", c) => Json.unit .partialOnly c
  | ("complete", c) => Json.unit .complete c
  | _ => .error .mismatch

end PointsToUse

namespace Config

/-- The record of a configuration, without its filter. -/
def toJson (c : Config) : Json :=
  .object [
    ("interprocedural", c.calls.toJson),
    ("points_to_kind", c.pointsToUse.toJson),
    ("perform_copy_analysis", .bool c.usesCopies),
    ("pessimistic", .bool c.pessimistic),
    ("max_block_visits_before_widening", Json.ofUInt32 c.visitsBeforeWidening)]

/-- Reads a configuration without a filter. -/
def ofJson (j : Json) : Decoded Config := do
  match ← j.fields ["interprocedural", "points_to_kind", "perform_copy_analysis", "pessimistic",
    "max_block_visits_before_widening"] with
  | [calls, pointsToUse, usesCopies, pessimistic, visits] =>
    return {
      calls := ← Json.orElse usual.calls CallConfig.ofJson calls
      pointsToUse := ← Json.orElse usual.pointsToUse PointsToUse.ofJson pointsToUse
      usesCopies := ← Json.orElse usual.usesCopies Json.asBool usesCopies
      pessimistic := ← Json.orElse usual.pessimistic Json.asBool pessimistic
      visitsBeforeWidening := ← Json.orElse usual.visitsBeforeWidening Json.asUInt32 visits
      filter := none }
  | _ => .error .mismatch

end Config

end Dataflow
