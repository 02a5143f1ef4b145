import Dataflow.Analysis.Basic

/-!
# Opaque calls

Code that is not known may write to everything that it can reach: to storage passed by
reference, to static fields, to fields and elements of unknown objects, and to those of
all objects that can be reached from the operands. What it may have written to holds
the escaped value besides what it held.
-/

namespace Dataflow

namespace Analysis

variable {V : Type} (A : Analysis V)

/-- Whether a call may write to everything that is not local: the analysis is
pessimistic, or the call passes an object that is not known. -/
def escapesAll (config : Config) (call : Call V) : Bool :=
  config.pessimistic || call.operands.any fun a => a.location.isUnknown && a.refKind == .value

/-- The objects that the operands of a call refer to. -/
def roots (call : Call V) : List Location := call.operands.flatMap (·.location.heapLocations)

/-- Whether code that has some objects at hand can write to an entity. -/
def isExposed (everything : Bool) (objects : List Location) (e : Entity) : Bool :=
  everything || e.isStatic || e.hasUnknownOwner || e.owner.heapLocations.any objects.contains

/-- The candidates that can be reached from some objects, by rounds: what a round reaches
gives the next one further objects. A round that reaches nothing is the last, so there
are no more rounds than candidates. -/
def closure (everything : Bool) (s : State V) :
    (rounds : Nat) → (objects : List Location) → (candidates : List Entity) → List Entity
  | 0, _, _ => []
  | rounds + 1, objects, candidates =>
    match candidates.partition (isExposed everything objects) with
    | ([], _) => []
    | (reached, others) =>
      reached ++ closure everything s rounds (objects ++ reached.flatMap (A.reachable s)) others

/-- The tracked entities that a call of unknown code may write to. -/
def escaped (config : Config) (call : Call V) (s : State V) : List Entity :=
  let candidates := s.entities.filter fun e => !e.isMethodLocal
  A.closure (escapesAll config call) s candidates.length (roots call) candidates

/-- Lets some entities escape. -/
def escapeAll (l : List Entity) : Visit V Unit := A.storeAll (l.map fun e => (e, A.escapedValue e))

/-- Lets everything escape that a call may write to through its operands. -/
def escapeReachable (config : Config) (call : Call V) : Visit V Unit := do
  A.escapeAll (A.escaped config call (← Visit.state))

/-- The storage that the call passes by reference. -/
def passedStorage (call : Call V) : List Entity :=
  call.arguments.filterMap fun a => if a.refKind.isByRef then a.entity else none

/-- A call of code that is not known. -/
def callOpaquely (config : Config) (call : Call V) : Visit V V := do
  A.escapeAll (passedStorage call)
  A.escapeReachable config call
  return A.unknownValue call.operation

end Analysis

end Dataflow
