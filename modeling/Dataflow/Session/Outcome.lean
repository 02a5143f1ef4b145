import Dataflow.Analysis.Solution

/-!
# Outcomes

The solution of any one of the analyses.
-/

namespace Dataflow

/-- The solution of any one of the analyses. -/
inductive Outcome where
  /-- Where references point. -/
  | pointsTo (s : Solution PointsTo)
  /-- Which entities hold the same value. -/
  | copy (s : Solution CopyClass)
  /-- Which literals values may be. -/
  | valueContent (s : Solution Content)
  /-- Which data comes from untrusted sources. -/
  | taintedData (s : Solution Taint)

namespace Outcome

/-- Which analysis. -/
def kind : Outcome → AnalysisKind
  | pointsTo _ => .pointsTo
  | copy _ => .copy
  | valueContent _ => .valueContent
  | taintedData _ => .taintedData

/-- The lines for a hit: the argument, and where its data comes from. -/
def hitText (h : SinkHit) : String :=
  let sources := h.sources.toList.map fun source => "\n    from " ++ source.text
  "  tainted argument " ++ toString h.argument ++ " reaches " ++ h.location.text ++ String.join sources ++
    "\n"

/-- The text of an outcome: the solution, and the hits. -/
def text : Outcome → String
  | pointsTo s => Solution.text Domain.pointsTo s
  | copy s => Solution.text Domain.copies s
  | valueContent s => Solution.text Domain.contents s
  | taintedData s => Solution.text Domain.taint s ++ String.join (s.hits.hits.map hitText)

end Outcome

end Dataflow
