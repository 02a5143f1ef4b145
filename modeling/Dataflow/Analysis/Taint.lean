import Dataflow.Analysis.Basic
import Dataflow.Taint.Rules

/-!
# Taint analysis

Which data comes from untrusted sources, and where it reaches sensitive arguments. On
the side the analysis notes where untrusted data comes from; these origins do not depend
on the order of control and only grow.
-/

namespace Dataflow

namespace Analysis

namespace TaintAnalysis

/-- The access to a symbol by an operation. -/
def access (ctx : Context Taint) (symbol : Symbol) (op : Operation) : SymbolAccess :=
  ⟨symbol, op.span, ctx.owner⟩

/-- Untrusted data that an operation brings in by its access to a symbol. -/
def bringIn (ctx : Context Taint) (symbol : Symbol) (op : Operation) : Visit Taint Taint := do
  Visit.setOrigins op.id (FinSet.singleton (access ctx symbol op))
  return .tainted

/-- The value of an operation that passes on what its operands carry. -/
def passOn (op : Operation) (v : Taint) : Visit Taint Taint := do
  Visit.setOrigins op.id (← Visit.originsOfAll op.operands)
  return v

/-- The field that an operation reads. -/
def fieldRead? : Operation → Option Symbol
  | .fieldRef _ _ field => some field
  | _ => none

/-- A read of an entity. -/
def readEntity (op : Operation) (e : Option Entity) : Visit Taint Taint := do
  Visit.setOrigins op.id (← Visit.entityOriginsOf e)
  match e with
  | some e => return State.valueOr Domain.taint (← Visit.state) e
  | none => return .notTainted

/-- A read. The values of some members are untrusted. -/
def reference (rules : TaintRules) (ctx : Context Taint) (op : Operation) (e : Option Entity) :
    Visit Taint Taint :=
  match fieldRead? op with
  | some field => if rules.isSourceMember field then bringIn ctx field op else readEntity op e
  | none => readEntity op e

/-- The operation whose value is stored. -/
def storedValue? : Operation → Option Operation
  | .assignment _ _ value | .capture _ _ value _ => some value
  | _ => none

/-- A store. The target's data may then come from where the value's data comes from. -/
def assign (op : Operation) (target : Option Entity) (v : Taint) : Visit Taint Taint := do
  let origins ← match storedValue? op with
    | some value => Visit.originsOf value.id
    | none => pure FinSet.empty
  match target with
  | some e =>
    Visit.addEntityOrigins e origins
    Visit.setState (State.write Domain.taint e v (← Visit.state))
  | none => pure ()
  Visit.setOrigins op.id origins
  return v

/-- The position that rules know an argument by: its parameter's, or its own. -/
def ordinal (a : Operand Taint) (position : Nat) : UInt32 :=
  match a.parameter with
  | some parameter => parameter.ordinal
  | none => UInt32.ofNat position

/-- Notes a hit if an argument is untrusted and sensitive. -/
def recordHit (rules : TaintRules) (ctx : Context Taint) (call : Call Taint)
    (argument : Operand Taint × Nat) : Visit Taint Unit := do
  let (a, position) := argument
  let k := ordinal a position
  if a.value = .tainted && rules.isSinkArgument call.method k then
    let hit : SinkHit :=
      { sink := call.method
        operation := call.operation.id
        location := access ctx call.method call.operation
        argument := k
        sources := ← Visit.originsOf a.operation }
    Visit.modifyHits (·.record call.operation.id hit)

/-- Notes the hits of a call. -/
def recordHits (rules : TaintRules) (ctx : Context Taint) (call : Call Taint) : Visit Taint Unit :=
  (call.arguments.zip (List.range call.arguments.length)).forM (recordHit rules ctx call)

/-- A call. The result of a sanitizer is clean, and the call does nothing else. A sink
gets hits. The result of a source is untrusted, and the call does nothing else. Any other
untrusted result comes from where the operands' data comes from. -/
def invoke (rules : TaintRules) (ctx : Context Taint) (usual : Call Taint → Visit Taint Taint)
    (call : Call Taint) : Visit Taint Taint := do
  let op := call.operation
  if rules.isSanitizer call.method then
    Visit.setOrigins op.id FinSet.empty
    return .notTainted
  if rules.isSink call.method then recordHits rules ctx call
  if rules.isSourceMethod call.method then bringIn ctx call.method op
  else
    let v ← usual call
    if v = .tainted then passOn op v
    else
      Visit.setOrigins op.id FinSet.empty
      return v

end TaintAnalysis

/-- The taint analysis by some rules. -/
def taint (rules : TaintRules) : Analysis Taint where
  kind := .taintedData
  domain := Domain.taint
  parameterValue := fun _ => .ok .notTainted
  unknownValue := fun _ => .notTainted
  reference := TaintAnalysis.reference rules
  assign := fun _ op target v => TaintAnalysis.assign op target v
  create := fun _ op values => TaintAnalysis.passOn op (values.foldl Taint.merge .notTainted)
  binary := fun _ op _ l r => TaintAnalysis.passOn op (l.merge r)
  convert := TaintAnalysis.passOn
  invoke := TaintAnalysis.invoke rules

end Analysis

end Dataflow
