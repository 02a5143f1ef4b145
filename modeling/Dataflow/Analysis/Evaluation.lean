import Dataflow.Analysis.Basic

/-!
# Evaluation of operations

An operation is visited after its operands, which are visited in the order of
evaluation; its value is noted last. The target of an assignment is resolved before
the value is evaluated.
-/

namespace Dataflow

namespace Analysis

variable {V : Type} (A : Analysis V) (ctx : Context V)

/-- The position that an operation names: a constant if it is one, and otherwise
whatever the storage holds that it reads, or the result of the operation. -/
def elementIndex (op : Operation) : Visit V ElementIndex := do
  match op.literal? with
  | some (.integer i) => return .constant i
  | _ =>
    match ← Visit.entityOf op.id with
    | some e => return .entity e
    | none => return .operation op.id

/-- What the caller sees of an operand that was just visited. -/
def operand (op : Operation) (parameter : Option Symbol) (refKind : RefKind) (v : V) :
    Visit V (Operand V) := do
  let entity ← if op.isReference || op.isCapture then Visit.entityOf op.id else pure none
  return ⟨op.id, parameter, refKind, entity, A.location ctx op v, v⟩

/-- Captures the location of storage: the temporary stands for what the operation
stands for. -/
def captureLocationOf (op : Operation) (capture : CaptureId) (target : Operation) (v : V) :
    Visit V V := do
  match ← Visit.entityOf target.id with
  | some e =>
    Visit.recordEntity op.id (some e)
    Visit.bindCapture capture e
  | none => pure ()
  return A.captureLocation op v

variable (usual : Call V → Visit V V)

mutual

/-- Visits an operation: evaluates it in the state at hand and notes its value. -/
def visit (op : Operation) : Visit V V := do
  let v ←
    match op with
    | .literal _ l => pure (A.literal op l)
    | .localRef .. | .parameterRef .. | .receiverRef _ | .captureRef .. => do
      A.reference ctx op (← Visit.resolve op none [])
    | .fieldRef _ owner _ => do
      let location ← visitOwner owner
      A.reference ctx op (← Visit.resolve op location [])
    | .elementRef _ array indices => do
      let v ← visit array
      let location := A.location ctx array v
      let positions ← visitPositions indices
      A.reference ctx op (← Visit.resolve op (some location) positions)
    | .assignment _ target value => do
      let _ ← visit target
      let e ← Visit.entityOf target.id
      A.assign ctx op e (← visit value)
    | .objectCreation _ arguments => do
      A.create ctx op ((← visitArguments arguments).map (·.value))
    | .arrayCreation _ dimensions => do
      let _ ← visitPositions dimensions
      A.createArray ctx op
    | .invocation _ method receiver arguments => do
      Visit.checkCancelled
      let receiver ← visitReceiver receiver
      let arguments ← visitArguments arguments
      Visit.modifyHits (·.withdraw op.id)
      A.invoke ctx usual ⟨op, method, receiver, arguments⟩
    | .binary _ operator left right => do
      let l ← visit left
      let r ← visit right
      A.binary ctx op operator l r
    | .conversion _ operand => do
      A.convert op (← visit operand)
    | .capture _ capture value byLocation => do
      let v ← visit value
      if byLocation then A.captureLocationOf op capture value v
      else A.assign ctx op (← Visit.resolve op none []) v
    | .ret _ value => do
      match ← visitResult value with
      | some v =>
        Visit.recordReturn op.id v
        pure v
      | none => pure A.domain.bottom
    | .invalid _ => pure (A.unknownValue op)
  Visit.recordValue op.id v
  return v

/-- Visits the object that a field belongs to and says where it is. -/
def visitOwner : Option Operation → Visit V (Option PointsTo)
  | none => return none
  | some op => return some (A.location ctx op (← visit op))

/-- Visits the receiver of a call. -/
def visitReceiver : Option Operation → Visit V (Option (Operand V))
  | none => return none
  | some op => return some (← A.operand ctx op none .value (← visit op))

/-- Visits the value that a method returns. -/
def visitResult : Option Operation → Visit V (Option V)
  | none => return none
  | some op => return some (← visit op)

/-- Visits the positions of an element, or the sizes of an array. -/
def visitPositions : List Operation → Visit V (List ElementIndex)
  | [] => return []
  | op :: ops => do
    let _ ← visit op
    let index ← elementIndex op
    return index :: (← visitPositions ops)

/-- Visits the arguments of a call or an object creation. -/
def visitArguments : List (Argument Operation) → Visit V (List (Operand V))
  | [] => return []
  | ⟨parameter, op, refKind⟩ :: rest => do
    let v ← visit op
    let argument ← A.operand ctx op parameter refKind v
    return argument :: (← visitArguments rest)

end

end Analysis

end Dataflow
