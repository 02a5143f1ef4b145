import Dataflow.Config.Basic
import Dataflow.Graph.Text
import Dataflow.State
import Dataflow.Taint.Hits

/-!
# Solutions

What an analysis found out about one method body: the states at the two ends of
every block that control can reach, what was recorded at each operation on its last
visit, and the solutions of the callees that were followed.
-/

namespace Dataflow

/-- The result of an analysis of one method body. -/
structure Solution (V : Type) where
  /-- Which analysis. -/
  kind : AnalysisKind
  /-- The body. -/
  graph : Graph
  /-- The state at the start of each block that was reached. -/
  entries : FinMap BlockId (State V)
  /-- The state at the end of each block that was reached. -/
  exits : FinMap BlockId (State V)
  /-- How often each block was visited. -/
  visits : FinMap BlockId Nat
  /-- The value of each operation. -/
  values : FinMap OperationId V
  /-- The state before each operation that stands for itself. -/
  before : FinMap OperationId (State V)
  /-- The entity that each reference stands for. -/
  entities : FinMap OperationId Entity
  /-- What the method returns, if it returns a value. -/
  returned : Option V
  /-- The solutions of callees by call site, ascending. -/
  callees : List (OperationId × Solution V)
  /-- Where untrusted data reaches sensitive arguments. -/
  hits : HitLog
  /-- How often the blocks were swept. -/
  passes : Nat

namespace Solution

variable {V : Type}

/-- The method. -/
def owner (s : Solution V) : Symbol := s.graph.owner

/-- The state at the start of the body. -/
def start (s : Solution V) : Option (State V) := s.entries.find? Graph.entry

/-- The state when the method returns, if it does. -/
def finish (s : Solution V) : Option (State V) := s.exits.find? s.graph.exit

/-- The value of an operation. -/
def valueAt (s : Solution V) (op : OperationId) : Option V := s.values.find? op

/-- The state before an operation that stands for itself. -/
def stateBefore (s : Solution V) (op : OperationId) : Option (State V) := s.before.find? op

/-- The entity that a reference stands for. -/
def entityAt (s : Solution V) (op : OperationId) : Option Entity := s.entities.find? op

/-- The value that an entity holds before an operation that stands for itself. -/
def valueBefore (s : Solution V) (e : Entity) (op : OperationId) : Option V :=
  (s.stateBefore op).bind (·.find? e)

/-- The solution of the callee at a call site. -/
def calleeAt (s : Solution V) (site : OperationId) : Option (Solution V) := s.callees.lookup site

/-- The line for a block: its state at the end. -/
def blockLine (D : Domain V) (s : Solution V) (b : Block) : String :=
  let state :=
    match s.exits.find? b.id with
    | some state => State.text D state
    | none => "unreachable"
  "  " ++ b.id.text ++ ": " ++ state ++ "\n"

/-- The text of a solution. -/
def text (D : Domain V) (s : Solution V) : String :=
  let head := s.kind.text ++ " analysis of " ++ s.owner.text ++ " (" ++ toString s.passes ++ " passes)\n"
  let result :=
    match s.returned with
    | some v => "  returns " ++ D.text v ++ "\n"
    | none => ""
  head ++ String.join (s.graph.blocks.map (s.blockLine D)) ++ result

end Solution

end Dataflow
