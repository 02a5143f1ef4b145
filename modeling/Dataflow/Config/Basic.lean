import Dataflow.Symbol.Basic

/-!
# Configuration

Which analysis is asked for, and how far it may go: whether calls are followed,
what it learns from the points-to analysis, when loops are widened.
-/

namespace Dataflow

/-- The analyses. -/
inductive AnalysisKind where
  /-- Where references point. -/
  | pointsTo
  /-- Which entities hold the same value. -/
  | copy
  /-- Which literals a value may be. -/
  | valueContent
  /-- Which data comes from untrusted sources. -/
  | taintedData
  deriving DecidableEq, Repr

namespace AnalysisKind

/-- The name in running text. -/
def text : AnalysisKind → String
  | pointsTo => "points-to"
  | copy => "copy"
  | valueContent => "value-content"
  | taintedData => "tainted-data"

/-- The analysis that a user names, in any case of letters. -/
def ofName (name : String) : Except String AnalysisKind :=
  match name.toLower with
  | "points-to" | "pointsto" => .ok pointsTo
  | "copy" => .ok copy
  | "value-content" | "valuecontent" => .ok valueContent
  | "tainted-data" | "taint" => .ok taintedData
  | other => .error ("unknown analysis kind `" ++ other ++ "`")

end AnalysisKind

/-- What happens at a call whose body is available. -/
inductive CallHandling where
  /-- Every call is opaque. -/
  | none
  /-- One summary for each method serves all its calls. -/
  | summaries
  /-- The body is analysed anew for each call site and each entry state. -/
  | inContext
  deriving DecidableEq, Repr

/-- The call handling that a user names, in any case of letters. -/
def CallHandling.ofName (name : String) : Except String CallHandling :=
  match name.toLower with
  | "none" => .ok none
  | "summary" | "ncs" | "non-context-sensitive" => .ok summaries
  | "context" | "cs" | "context-sensitive" => .ok inContext
  | other => .error ("unknown interprocedural analysis kind `" ++ other ++ "`")

/-- How calls are followed. -/
structure CallConfig where
  /-- What happens at a call. -/
  handling : CallHandling
  /-- How many calls may be under way; further calls are opaque. -/
  maxCallChain : UInt64
  /-- How many operations all analysed callees may have together. -/
  maxNodes : UInt64
  deriving DecidableEq, Repr

/-- A handling with the usual limits. -/
def CallConfig.usual (handling : CallHandling) : CallConfig := ⟨handling, 3, 512⟩

/-- What the other analyses learn from the points-to analysis. -/
inductive PointsToUse where
  /-- Nothing. -/
  | none
  /-- Only entities of known objects are tracked. -/
  | partialOnly
  /-- Everything. -/
  | complete
  deriving DecidableEq, Repr

/-- The use of points-to information that a user names, in any case of letters. -/
def PointsToUse.ofName (name : String) : Except String PointsToUse :=
  match name.toLower with
  | "none" => .ok none
  | "partial" | "partial-only" | "partialonly" => .ok partialOnly
  | "complete" => .ok complete
  | other => .error ("unknown points-to analysis kind `" ++ other ++ "`")

/-- What a filter says about a callee. -/
structure Verdict where
  /-- Whether the callee may be analysed. -/
  accept : Bool
  /-- Whether all work is to be cancelled. -/
  cancel : Bool
  deriving DecidableEq, Repr

/-- A client's rule for which callees may be analysed. Filters are told apart by
their label, not by what they do. -/
structure CallFilter where
  /-- Which filter it is. -/
  label : Nat
  /-- What it says about a callee. -/
  judge : Symbol → Verdict

/-- The filter that rejects some methods, and cancels all work at some, by their texts. -/
def CallFilter.ofTexts (label : Nat) (reject cancelOn : List String) : CallFilter :=
  ⟨label, fun m => ⟨!reject.contains m.text, cancelOn.contains m.text⟩⟩

instance : BEq CallFilter := ⟨fun a b => a.label == b.label⟩

/-- How an analysis is to be run. -/
structure Config where
  /-- How calls are followed. -/
  calls : CallConfig
  /-- What is learnt from the points-to analysis. -/
  pointsToUse : PointsToUse
  /-- Whether the analysis of literal content uses classes of copies. -/
  usesCopies : Bool
  /-- Whether an opaque call changes everything that is not local, and not only what
  it can reach. -/
  pessimistic : Bool
  /-- How often a block is visited before its entry state is widened. -/
  visitsBeforeWidening : UInt32
  /-- Which callees may be analysed. -/
  filter : Option CallFilter
  deriving BEq

/-- The usual configuration. -/
def Config.usual : Config where
  calls := CallConfig.usual .none
  pointsToUse := .complete
  usesCopies := false
  pessimistic := false
  visitsBeforeWidening := 8
  filter := none

end Dataflow
