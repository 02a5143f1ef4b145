import Dataflow.Analysis.Basic

/-!
# Points-to analysis

Which objects references point to. Objects are told apart by the operation that creates
them and the call sites that lead there; what the caller passes is an object of its own
for each parameter. This analysis resolves fields and elements by its own values.
-/

namespace Dataflow

namespace Analysis

namespace PointsToAnalysis

/-- The value of something that is not known: unknown objects, or nothing that can be
analysed if it holds no references. -/
def unknown (isReference : Bool) : PointsTo := if isReference then .unknown else PointsTo.noLocation

/-- What a parameter points to: an object of its own, and for all but the receiver
maybe null. -/
def parameterValue (e : Entity) : Checked PointsTo := do
  if !e.isReference then return PointsTo.noLocation
  let mayBeNull :=
    match e with
    | .receiver _ => false
    | _ => true
  PointsTo.ofLocation (← Location.ofEntity e) mayBeNull

/-- The object that an operation creates. -/
def allocation (ctx : Context PointsTo) (op : Operation) : Visit PointsTo PointsTo :=
  Visit.check (PointsTo.ofLocation (.allocation op.id ctx.owner op.type ctx.callSites) false)

/-- The value of a constant. -/
def literal : Literal → PointsTo
  | .null => PointsTo.nullLocation
  | _ => PointsTo.noLocation

/-- The result of an operator: joining texts creates an object. -/
def binary (ctx : Context PointsTo) (op : Operation) (operator : BinaryOperator) :
    Visit PointsTo PointsTo :=
  if (operator = .concatenate || operator = .add) && op.isReferenceType then allocation ctx op
  else return PointsTo.noLocation

/-- What a value of a summary means to a caller. Objects of the callee's own parameters
mean nothing to it. -/
def summaryValue (v : PointsTo) : PointsTo :=
  if v.heapLocations.all (·.isAllocation) then v else PointsTo.unknownWith v.nullness

end PointsToAnalysis

/-- The points-to analysis. -/
def pointsTo : Analysis PointsTo where
  kind := .pointsTo
  domain := Domain.pointsTo
  parameterValue := PointsToAnalysis.parameterValue
  unknownValue := fun op => PointsToAnalysis.unknown op.isReferenceType
  escapedValue := fun e => PointsToAnalysis.unknown e.isReference
  location := fun _ _ v => v
  reachable := fun s e => (s.find? e).elim [] (·.heapLocations)
  summaryValue := PointsToAnalysis.summaryValue
  literal := fun _ l => PointsToAnalysis.literal l
  create := fun ctx op _ => PointsToAnalysis.allocation ctx op
  createArray := PointsToAnalysis.allocation
  binary := fun ctx op operator _ _ => PointsToAnalysis.binary ctx op operator
  convert := fun op v => return if op.isReferenceType then v else PointsTo.noLocation
  captureLocation := fun op _ => .captures [op.id]

end Analysis

end Dataflow
