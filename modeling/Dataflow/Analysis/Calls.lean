import Dataflow.Analysis.Opaque

/-!
# Calls

A call is followed into the callee's body if the configuration says so, the filter
accepts the callee, the callee is not under way, the chain of calls may grow, there is
a body, and its operations fit into the budget. Otherwise the call is opaque. A callee
is analysed in the state that the call passes to it, or once for all calls; in the
second case it says nothing about the caller's objects, and these escape.
-/

namespace Dataflow

namespace Analysis

variable {V : Type} (A : Analysis V) (ctx : Context V)

/-! ### Into the callee -/

/-- The parameter of each argument: the one that the call names, or the one at its
position. -/
def boundParameters (call : Call V) (callee : Graph) : List (Option Symbol) :=
  (call.arguments.zip (List.range call.arguments.length)).map fun (a, position) =>
    a.parameter.or callee.parameters[position]?

/-- The bound parameters, each with its argument. -/
def bindings (call : Call V) (callee : Graph) : List (Operand V × Option Symbol) :=
  call.arguments.zip (boundParameters call callee)

/-- What a callee knows about an operand that it gets for an entity of its own. -/
def passedValue (a : Operand V) (e : Entity) : V :=
  if A.crossesCalls then a.value else A.domain.missing e

/-- The state that a callee starts in: what the caller knows about objects, and the
operands. -/
def calleeEntry (call : Call V) (callee : Graph) (s : State V) : State V :=
  let heap := if A.crossesCalls then s.filter fun e _ => !e.isMethodLocal else State.empty
  let bound := (bindings call callee).foldl (fun s (a, parameter) =>
    match parameter with
    | some parameter =>
      let e := Entity.localVar parameter callee.owner
      s.insert e (A.passedValue a e)
    | none => s) heap
  match call.receiver with
  | some a => bound.insert (.receiver callee.owner) (A.passedValue a (.receiver callee.owner))
  | none => bound

/-! ### Back to the caller -/

/-- What a value of a callee means to its caller. -/
def returnedValue (inContext : Bool) (v : V) : V := if inContext then v else A.summaryValue v

/-- What the storage that was passed by reference holds after the call. -/
def passedBack (call : Call V) (s : Solution V) (inContext : Bool) : List (Entity × V) :=
  (bindings call s.graph).filterMap fun (a, parameter) =>
    match a.refKind.isByRef, a.entity, parameter with
    | true, some e, some parameter =>
      let v :=
        match s.finish with
        | some exit => State.valueOr A.domain exit (.localVar parameter s.owner)
        | none => A.escapedValue e
      some (e, A.returnedValue inContext v)
    | _, _, _ => none

/-- What a callee leaves that is news to its caller. -/
def news [DecidableEq V] (callee : Symbol) (exit caller : State V) : List (Entity × V) :=
  exit.entries.filter fun (e, v) =>
    !e.isMethodLocal && !e.mentionsLocalsOf callee && caller.find? e != some v

/-- The effects of a call on the caller, and its value. -/
def comeBack [DecidableEq V] (call : Call V) (s : Solution V) (inContext : Bool) : Visit V V := do
  A.storeAll (A.passedBack call s inContext)
  if inContext then
    match s.finish with
    | some exit => A.storeAll (news s.owner exit (← Visit.state))
    | none => pure ()
  else
    A.escapeReachable ctx.config call
  return A.returnedValue inContext (s.returned.getD (A.unknownValue call.operation))

/-! ### Following calls -/

/-- Whether the filter accepts a callee. It may cancel all work on the way. -/
def accepts (method : Symbol) : Visit V Bool := do
  match ctx.config.filter with
  | none => return true
  | some filter =>
    let verdict := filter.judge method
    if verdict.cancel then Visit.modifyLedger fun ledger => { ledger with cancelled := true }
    return verdict.accept

/-- The solution of a callee: the one that is filed, or a new one if the budget allows it. -/
def solution? (filed : Ledger V → Option (Solution V)) (file : Solution V → Ledger V → Ledger V)
    (callee : Graph) (solve : Run V (Solution V)) : Visit V (Option (Solution V)) := do
  let ledger := (← get).ledger
  match filed ledger with
  | some s => return some s
  | none =>
    match ← Visit.check (ledger.reserve? (UInt64.ofNat callee.operationCount) ctx.config.calls.maxNodes) with
    | none => return none
    | some ledger =>
      Visit.modifyLedger fun _ => ledger
      let s ← Visit.ofRun solve
      Visit.modifyLedger (file s)
      return some s

/-- The solution of a callee for a call. -/
def calleeSolution? [DecidableEq V] (solve : Context V → Run V (Solution V)) (call : Call V)
    (callee : Graph) (inContext : Bool) : Visit V (Option (Solution V)) := do
  let site := call.operation.id
  if inContext then
    let entry := A.calleeEntry call callee (← Visit.state)
    let key : CallKey V := ⟨call.method, ctx.callSites ++ [site], entry⟩
    solution? ctx (·.inContext? key) (Ledger.storeInContext key) callee
      (solve (ctx.forCallee callee site (some entry)))
  else
    solution? ctx (·.summary? call.method) (Ledger.storeSummary call.method) callee
      (solve (ctx.forCallee callee site none))

/-- A call into a body. -/
def follow [DecidableEq V] (solve : Context V → Run V (Solution V)) (call : Call V) (callee : Graph)
    (inContext : Bool) : Visit V V := do
  Visit.checkCancelled
  match ← A.calleeSolution? ctx solve call callee inContext with
  | none => A.callOpaquely ctx.config call
  | some s =>
    let site := call.operation.id
    Visit.modifyHits (·.absorb site s.hits)
    Visit.modifyNotes fun n => { n with callees := n.callees.insert site s }
    if A.crossesCalls then A.comeBack ctx call s inContext
    else A.callOpaquely ctx.config call

/-- The usual way to handle a call. `deeper` solves the body of a callee; there is none
if the chain of calls must not grow. -/
def handleCall [DecidableEq V] (deeper : Option (Context V → Run V (Solution V))) (call : Call V) :
    Visit V V := do
  if ctx.config.calls.handling = .none then
    A.callOpaquely ctx.config call
  else if !(← accepts ctx call.method) then
    A.callOpaquely ctx.config call
  else
    match ctx.isOnStack call.method, deeper, ctx.bodies call.method with
    | false, some solve, some callee =>
      A.follow ctx solve call callee (ctx.config.calls.handling == .inContext)
    | _, _, _ => A.callOpaquely ctx.config call

end Analysis

end Dataflow
