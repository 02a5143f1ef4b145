import Dataflow.Config.Basic
import Dataflow.Entity.Contract

/-!
# Failures

Why a request for an analysis has no result.
-/

namespace Dataflow

/-- Why an analysis has no result. -/
inductive Failure where
  /-- The work was cancelled. -/
  | cancelled
  /-- The method has no body. -/
  | missingGraph (method : Symbol)
  /-- A result of another kind is stored where one of this kind is asked for. -/
  | mistyped (kind : AnalysisKind)
  /-- An input text cannot be read. -/
  | unreadable
  /-- A rule of a constructor or of a count was broken. -/
  | violated (violation : Violation)
  /-- The blocks were swept more often than a machine word can count. -/
  | endless
  deriving DecidableEq, Repr

namespace Failure

/-- What went wrong. -/
def message : Failure → String
  | cancelled => "analysis was cancelled"
  | missingGraph method => "no control flow graph is available for " ++ method.text
  | mistyped kind => "cached result for a " ++ kind.text ++ " analysis has an unexpected type"
  | unreadable => "could not read analysis input"
  | violated violation => violation.message
  | endless => "analysis does not settle"

end Failure

end Dataflow
