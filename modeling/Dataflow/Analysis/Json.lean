import Dataflow.Analysis.Solution
import Dataflow.Taint.Json

/-!
# Solutions as JSON

States are written as lists of texts, and what was noted at operations as lists in the
order of identifiers. Solutions can be written but not read.
-/

namespace Dataflow

/-- A state by the texts of its entities and values; null if there is no state. -/
def State.toJson {V : Type} (D : Domain V) : Option (State V) → Json
  | none => .null
  | some s => .array ((State.texts D s).map .string)

/-- How the solutions of an analysis are written. -/
structure SolutionFormat (V : Type) where
  /-- The abstract values. -/
  domain : Domain V
  /-- Whether the analysis looks for hits. -/
  hasHits : Bool

namespace SolutionFormat

variable {V : Type} (F : SolutionFormat V)

/-- The hits, if the analysis looks for them. -/
def hits (s : Solution V) : Json := if F.hasHits then s.hits.toJson else .null

/-- A value by its text; null if there is none. -/
def value (v : Option V) : Json := Json.ofOption (fun v => .string (F.domain.text v)) v

mutual

/-- The solution of the callee at a call site, in short. -/
def callee (site : OperationId) : Solution V → Json
  | s@⟨_, _, _, _, _, _, _, _, _, below, _, _⟩ =>
    .object [
      ("op", site.toJson), ("text", .string (Solution.text F.domain s)),
      ("start", State.toJson F.domain s.start), ("residue", F.hits s),
      ("callees", .array (callees below))]

/-- The solutions of callees by call site. -/
def callees : List (OperationId × Solution V) → List Json
  | [] => []
  | (site, s) :: rest => callee site s :: callees rest

end

/-- The operations of a body, each once, by ascending identifier. -/
def operationIds (g : Graph) : List OperationId :=
  (FinSet.ofList ((g.operations.flatMap (·.subtree)).map (·.id))).toList

/-- The states at the two ends of a block. -/
def block (s : Solution V) (b : Block) : Json :=
  .object [
    ("entry", State.toJson F.domain (s.entries.find? b.id)),
    ("exit", State.toJson F.domain (s.exits.find? b.id))]

/-- What was noted at an operation: its value and the entity that it stands for. -/
def noted? (s : Solution V) (op : OperationId) : Option Json :=
  (s.valueAt op).map fun v => .array [
    op.toJson, .string (F.domain.text v), Json.ofOption (fun e => .string e.text) (s.entityAt op)]

/-- The state before an operation, if it was noted. -/
def before? (s : Solution V) (op : OperationId) : Option Json :=
  (s.stateBefore op).map fun state => .array [op.toJson, State.toJson F.domain (some state)]

/-- The members of the record of a solution. -/
def members (s : Solution V) : List (String × Json) :=
  let ids := operationIds s.graph
  [ ("kind", .string s.kind.text), ("owner", .string s.owner.text), ("passes", .integer s.passes),
    ("blocks", .array (s.graph.blocks.map (F.block s))), ("ops", .array (ids.filterMap (F.noted? s))),
    ("before", .array (ids.filterMap (F.before? s))), ("start", State.toJson F.domain s.start),
    ("end", State.toJson F.domain s.finish), ("returns", F.value s.returned), ("residue", F.hits s),
    ("callees", .array (F.callees s.callees)) ]

end SolutionFormat

end Dataflow
