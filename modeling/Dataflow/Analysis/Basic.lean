import Dataflow.Analysis.Visit
import Dataflow.State.Write

/-!
# Analyses

An analysis says what each kind of operation does to the state and which value it
yields. What an analysis does not say for itself has the default given here. The walk
over operation trees, the handling of calls and the solver are the same for all
analyses.
-/

namespace Dataflow

/-- The receiver or an argument of a call, as the caller sees it. -/
structure Operand (V : Type) where
  /-- The operation that yields it. -/
  operation : OperationId
  /-- The parameter it is bound to, if the call names one. -/
  parameter : Option Symbol
  /-- How it is passed. -/
  refKind : RefKind
  /-- The storage it stands for, if it does. -/
  entity : Option Entity
  /-- Where it points. -/
  location : PointsTo
  /-- Its value. -/
  value : V

/-- A call whose operands were evaluated. -/
structure Call (V : Type) where
  /-- The call. -/
  operation : Operation
  /-- The method that is called. -/
  method : Symbol
  /-- The receiver. -/
  receiver : Option (Operand V)
  /-- The arguments. -/
  arguments : List (Operand V)

/-- The receiver and the arguments. -/
def Call.operands {V : Type} (call : Call V) : List (Operand V) := call.receiver.toList ++ call.arguments

/-- What an analysis does at each kind of operation. -/
structure Analysis (V : Type) where
  /-- Which analysis it is. -/
  kind : AnalysisKind
  /-- The abstract values. -/
  domain : Domain V
  /-- What a parameter or the receiver holds if nothing is known about the caller. -/
  parameterValue : Entity → Checked V := fun e => .ok (domain.missing e)
  /-- The value of an operation that nothing is known about. -/
  unknownValue : Operation → V := fun _ => domain.top
  /-- What an entity holds after code that is not known may have written to it. -/
  escapedValue : Entity → V := fun _ => domain.top
  /-- Where the value of an operation points. -/
  location : Context V → Operation → V → PointsTo := fun ctx op _ => ctx.locationOf op
  /-- The objects that can be reached through an entity. -/
  reachable : State V → Entity → List Location := fun _ _ => []
  /-- What a value that serves all calls of a callee means to a caller. -/
  summaryValue : V → V := fun v => v
  /-- Whether values mean the same in a callee as in its caller. -/
  crossesCalls : Bool := true
  /-- A write to an entity. -/
  write : Entity → V → State V → Checked (State V) := fun e v s => .ok (State.write domain e v s)
  /-- The end of an entity's scope. -/
  forget : Entity → State V → Checked (State V) := fun e s => .ok (s.erase e)
  /-- A constant. -/
  literal : Operation → Literal → V := fun op _ => unknownValue op
  /-- A read of an entity, or of storage that no entity stands for. -/
  reference : Context V → Operation → Option Entity → Visit V V := fun _ op e => do
    match e with
    | some e => return State.valueOr domain (← Visit.state) e
    | none => return unknownValue op
  /-- A store into an entity, or into storage that no entity stands for. -/
  assign : Context V → Operation → Option Entity → V → Visit V V := fun _ _ target v => do
    match target with
    | some target => Visit.update (write target v)
    | none => pure ()
    return v
  /-- A new object, from the values of the arguments. -/
  create : Context V → Operation → List V → Visit V V := fun _ op _ => return unknownValue op
  /-- A new array. -/
  createArray : Context V → Operation → Visit V V := fun _ op => return unknownValue op
  /-- A binary operator on two values. -/
  binary : Context V → Operation → BinaryOperator → V → V → Visit V V :=
    fun _ op _ _ _ => return unknownValue op
  /-- A conversion of a value. -/
  convert : Operation → V → Visit V V := fun _ v => return v
  /-- A captured location of storage, from the value in it. -/
  captureLocation : Operation → V → V := fun _ v => v
  /-- A call, from the usual way to handle one. -/
  invoke : Context V → (Call V → Visit V V) → Call V → Visit V V := fun _ usual call => usual call

namespace Analysis

variable {V : Type} (A : Analysis V)

/-- Writes a value to an entity in the state at hand. -/
def store (e : Entity) (v : V) : Visit V Unit := Visit.update (A.write e v)

/-- Writes values to entities, one after the other. -/
def storeAll (l : List (Entity × V)) : Visit V Unit := l.forM fun (e, v) => A.store e v

/-- Ends the scope of locals. -/
def leaveScope (locals : List Symbol) : Visit V Unit :=
  locals.forM fun symbol => do
    let e := (← Visit.notes).resolver.localVar symbol
    Visit.update (A.forget e)

end Analysis

end Dataflow
