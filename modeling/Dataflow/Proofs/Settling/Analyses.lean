import Dataflow.Proofs.Contents.Endless
import Dataflow.Proofs.Contents.Settling
import Dataflow.Proofs.Copies.Settling
import Dataflow.Proofs.PointsTo.Settling
import Dataflow.Proofs.Settling.Runs
import Dataflow.Proofs.Taint.Settling

/-!
# All four analyses settle

A body settles if some sweep over it changes nothing. Widening sees to that as long as a body names
finitely many entities, and this depends on what outlives the visits of a block besides the states: the entities
that were noted for operations, and what temporaries stand for.

## What is proved

Whatever the configuration, the caller and the results of other analyses are, all four analyses settle on a body in which
operations have distinct identifiers, if no call is followed and either no temporary captures a location
(`settles_of_noLocations`) or the temporaries that do can be ranked (`settles_of_layered`).

Neither condition can be dropped. Two operations of one identifier are enough for an analysis to go on forever
(`not_settles_sharedId`), and so is a temporary that is bound by way of itself (`not_settles_rebinding`).
-/

namespace Dataflow

namespace Graph

/-- No temporary captures a location. -/
def NoLocations (g : Graph) : Prop := ∀ op ∈ Operation.subtrees g.operations, op.located? = none

instance (g : Graph) : Decidable g.NoLocations := inferInstanceAs (Decidable (∀ _ ∈ _, _))

/-- Without captured locations there is nothing to rank. -/
theorem NoLocations.layered {g : Graph} (h : g.NoLocations) : g.Layered fun _ => 0 := by
  have none : ∀ b ∈ g.blocks, ∀ op ∈ b.allOperations, ∀ o ∈ op.subtree, o.located? = none := fun b hb op hop o ho =>
    h o (subtrees_allOperations_subset hb o (Operation.subtree_subset_of_mem hop o ho))
  have below : ∀ b ∈ g.blocks, ∀ op', op' ∈ b.allOperations → ∀ op, Operation.Below (fun _ => 0) op op' := by
    intro b hb op' hop' op d _ c hc
    rw [none b hb op' hop' op' (Operation.mem_subtree_self op')] at hc
    cases hc
  refine ⟨fun b hb op hop o ho => none b hb op hop o (Operation.subtrees_operands_subset op o ho),
    fun b hb op hop => below b hb op hop op, fun b hb => ?_⟩
  exact List.pairwise_of_forall_mem_list fun op _ op' hop' => below b hb op' hop' op

end Graph

namespace Analysis

/-- Runs over the body settle, whatever the caller, the configuration and the results of other analyses are, as
long as no call is followed. -/
def SettlesOn {V : Type} [DecidableEq V] (A : Analysis V) (graph : Graph) : Prop :=
  ∀ (ctx : Context V) (usual : Call V → Visit V V) (ledger : Ledger V), ctx.graph = graph →
    ctx.config.calls.handling = .none → IsUsual A ctx usual → A.Settles ctx usual ledger

theorem settlesOn_of_keeps {V : Type} [DecidableEq V] {A : Analysis V} {S : Scope V} {graph : Graph}
    {rank : CaptureId → Nat}
    (keeps : ∀ (ctx : Context V) (usual : Call V → Visit V V), ctx.config.calls.handling = .none →
      IsUsual A ctx usual → S.Sound A ctx usual)
    (valid : graph.Valid) (distinct : graph.DistinctIds) (layered : graph.Layered rank) : A.SettlesOn graph := by
  rintro ctx usual ledger rfl handling husual
  exact settles (keeps ctx usual handling husual) valid distinct layered ledger

section Bodies

variable {graph : Graph} {rank : CaptureId → Nat} (valid : graph.Valid) (distinct : graph.DistinctIds)
include valid distinct

theorem pointsTo_settlesOn (layered : graph.Layered rank) : pointsTo.SettlesOn graph :=
  settlesOn_of_keeps (fun _ _ => pointsTo_keeps) valid distinct layered

theorem copies_settlesOn (layered : graph.Layered rank) : copies.SettlesOn graph :=
  settlesOn_of_keeps (fun _ _ => copies_keeps) valid distinct layered

theorem contents_settlesOn (layered : graph.Layered rank) : contents.SettlesOn graph :=
  settlesOn_of_keeps (fun _ _ => contents_keeps) valid distinct layered

theorem taint_settlesOn (rules : TaintRules) (layered : graph.Layered rank) : (taint rules).SettlesOn graph :=
  settlesOn_of_keeps (fun _ _ => taint_keeps) valid distinct layered

/-! ### Without captured locations -/

end Bodies

namespace Following

/-- A local variable. -/
def x : Symbol := Symbol.localVar "x" none

/-- The field that refers to the next object. -/
def next : Symbol := ⟨"next", .field, some (TypeRef.reference "Node"), none, .value, 0⟩

/-- Follows references from object to object. -/
def graph : Graph := Endless.loop
  [.assignment (Endless.info 3) (.localRef (Endless.info 0) x)
    (.fieldRef (Endless.info 2) (some (.localRef (Endless.info 1) x)) next)]

theorem graph_valid : graph.Valid := Endless.loop_valid _

/-- Every visit of a block but the first one widens. -/
def context {V : Type} : Context V := Context.start graph { Config.usual with visitsBeforeWidening := 0 } fun _ => none

/-- Nothing is untrusted. -/
def rules : TaintRules := TaintRules.ofConfig (KnownTypes.ofList []) TaintConfig.empty

end Following

/-- All analyses settle on a body whose temporaries can be ranked. -/
theorem settles_of_layered {graph : Graph} {rank : CaptureId → Nat} (valid : graph.Valid) (distinct : graph.DistinctIds)
    (layered : graph.Layered rank) (rules : TaintRules) :
    pointsTo.SettlesOn graph ∧ copies.SettlesOn graph ∧ contents.SettlesOn graph ∧ (taint rules).SettlesOn graph :=
  ⟨pointsTo_settlesOn valid distinct layered, copies_settlesOn valid distinct layered,
    contents_settlesOn valid distinct layered, taint_settlesOn valid distinct rules layered⟩

namespace Relinking

open Following (x next)
open Endless (info)

/-- Captures the location of the reference to the next object, and by way of it the location of the one after; then
lets the latter refer back. -/
def graph : Graph := Endless.loop
  [.capture (info 2) ⟨0⟩ (.fieldRef (info 1) (some (.localRef (info 0) x)) next) true,
    .capture (info 5) ⟨1⟩ (.fieldRef (info 4) (some (.captureRef (info 3) ⟨0⟩)) next) true,
    .assignment (info 8) (.captureRef (info 6) ⟨1⟩) (.localRef (info 7) x),
    .assignment (info 11) (.localRef (info 9) x) (.captureRef (info 10) ⟨0⟩)]

theorem graph_valid : graph.Valid := Endless.loop_valid _

/-- The second location is reached by way of the first one. -/
def rank (c : CaptureId) : Nat := if c = ⟨1⟩ then 1 else 0

/-- Every visit of a block but the first one widens. -/
def context {V : Type} : Context V := Context.start graph { Config.usual with visitsBeforeWidening := 0 } fun _ => none

end Relinking

open Relinking in
theorem settles_of_layered_relinking :
    pointsTo.Settles context (pointsTo.handleCall context none) (Ledger.start false) ∧
    copies.Settles context (copies.handleCall context none) (Ledger.start false) ∧
    contents.Settles context (contents.handleCall context none) (Ledger.start false) ∧
    (taint Following.rules).Settles context ((taint Following.rules).handleCall context none) (Ledger.start false) := by
  have layered : graph.Layered rank := by decide +kernel
  obtain ⟨onPointsTo, onCopies, onContents, onTaint⟩ :=
    settles_of_layered graph_valid (by decide +kernel) layered Following.rules
  exact ⟨onPointsTo _ _ _ rfl rfl ⟨none, rfl⟩, onCopies _ _ _ rfl rfl ⟨none, rfl⟩,
    onContents _ _ _ rfl rfl ⟨none, rfl⟩, onTaint _ _ _ rfl rfl ⟨none, rfl⟩⟩

open Endless.Rebinding in
/-- If a temporary is bound by way of itself, an analysis need not settle. -/
theorem not_settles_rebinding :
    context.graph.Valid ∧ context.graph.DistinctIds ∧ context.config.calls.handling = .none ∧
      ¬ contents.Settles context (contents.handleCall context none) (Ledger.start false) :=
  ⟨Endless.loop_valid _, by decide +kernel, rfl, Endless.not_settles names⟩

end Analysis

end Dataflow
