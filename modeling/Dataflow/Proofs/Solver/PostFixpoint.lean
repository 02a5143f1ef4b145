import Dataflow.Analysis.Contents
import Dataflow.Analysis.Copies
import Dataflow.Analysis.PointsTo
import Dataflow.Analysis.Taint
import Dataflow.Proofs.Lattice.Absorption
import Dataflow.Proofs.Solver.Sweeps

/-!
# Solutions are post-fixpoints

The states of a solution solve the equations of the graph in one direction: whatever flows
into a block is absorbed by the state at its start. This is what makes a solution say
something about every run of the body, however often it goes round a loop.

## What is proved

`Solution.Solves` collects what a solution owes to its graph. The analyses of copies, of
literal content and of taint always keep it. The points-to analysis keeps it at every block
but those where widening has turned an entity into unknown objects that are not null while
the address of captured storage flows in (`LosesCapture`), and at such a block it never does
(`solve_solves`). The exception is a real one (`solve_loses_capture`).
-/

namespace Dataflow

namespace Solution

variable {V : Type}

/-- What flows into a block: the merge of what its predecessors leave, as far as they were
visited. -/
def inflow (D : Domain V) (sol : Solution V) (b : BlockId) : Option (State V) :=
  State.mergeAll D ((sol.graph.predecessors b).filterMap sol.exits.find?)

/-- How often a block was visited. -/
def visitsOf (sol : Solution V) (b : BlockId) : Nat := (sol.visits.find? b).getD 0

/-- The solution starts in the initial state of its run. At every other block that control can
reach, the state absorbs what flows in, unless the two are an exception; and it is what flows
in, as long as the block was not visited so often that its state was widened. -/
structure Solves (A : Analysis V) (ctx : Context V) (exception : State V → State V → Prop)
    (sol : Solution V) : Prop where
  /-- The entry's state is the initial one. -/
  entry : ∃ s, A.initialState ctx = .ok s ∧ sol.entries.find? Graph.entry = some s
  /-- The other blocks absorb what flows in. -/
  absorbs : ∀ b, ctx.graph.Reachable b → b ≠ Graph.entry →
    ∃ s input, sol.entries.find? b = some s ∧ sol.inflow A.domain b = some input ∧
      (State.merge A.domain s input = s ↔ ¬ exception s input) ∧
      (sol.visitsOf b < ctx.config.visitsBeforeWidening.toNat → s = input)

end Solution

namespace State

/-- The address of captured storage flows into an entity that stands for unknown objects that are
not null. -/
def LosesCapture (s input : State PointsTo) : Prop :=
  ∃ e c, s.find? e = some .unknownNotNull ∧ input.find? e = some (.captures c)

/-- Without the exception, absorbing is a matter of the values. -/
theorem merge_widen_of_values {V : Type} [DecidableEq V] {D : Domain V}
    (h : ∀ old new, D.merge (widenValue D old new) new = widenValue D old new) (previous next : State V) :
    merge D (widen D previous next) next = widen D previous next :=
  merge_widen_iff.2 fun _ _ => h _ _

/-- What an entity holds that is not mentioned is no address of captured storage. -/
theorem missingPointsTo_isCapture (e : Entity) : (Domain.missingPointsTo e).isCapture = false := by
  unfold Domain.missingPointsTo
  split
  · rfl
  · split
    · rfl
    · rfl
    · rfl
    · split <;> rfl
    · split <;> rfl

/-- An entity whose value is the address of captured storage is mentioned. -/
theorem find?_of_isCapture {s : State PointsTo} {e : Entity}
    (h : (valueOr Domain.pointsTo s e).isCapture = true) : ∃ c, s.find? e = some (.captures c) := by
  cases hs : s.find? e with
  | none =>
    rw [valueOr_of_not_mentioned _ hs] at h
    rw [show Domain.pointsTo.missing e = Domain.missingPointsTo e from rfl, missingPointsTo_isCapture] at h
    cases h
  | some v =>
    rw [valueOr_of_find? _ hs] at h
    cases v <;> simp [PointsTo.isCapture] at h
    exact ⟨_, rfl⟩

/-- A widened points-to state absorbs what it was widened by, apart from the exception. -/
theorem merge_widen_pointsTo_iff (previous next : State PointsTo) :
    merge Domain.pointsTo (widen Domain.pointsTo previous next) next = widen Domain.pointsTo previous next ↔
      ¬ LosesCapture (widen Domain.pointsTo previous next) next := by
  rw [merge_widen_iff]
  constructor
  · rintro h ⟨e, c, hw, hc⟩
    have he : (previous.find? e).isSome ∨ (next.find? e).isSome := .inr (by rw [hc]; rfl)
    rw [find?_widen, if_pos he, Option.some.injEq] at hw
    refine (PointsTo.merge_widenValue_iff _ _).1 (h e he) ⟨hw, ?_⟩
    rw [valueOr_of_find? _ hc]
    rfl
  · intro h e he
    refine (PointsTo.merge_widenValue_iff _ _).2 ?_
    rintro ⟨hw, hc⟩
    obtain ⟨c, hc⟩ := find?_of_isCapture hc
    exact h ⟨e, c, by rw [find?_widen, if_pos he, hw], hc⟩

end State

namespace Analysis

variable {V : Type} [DecidableEq V]

/-- Nothing that has to be kept. -/
def Invariant.trivial : Invariant V := ⟨fun _ => True, fun _ => True, fun _ _ _ _ => True⟩

theorem Invariant.trivial_kept (A : Analysis V) (ctx : Context V) (usual : Call V → Visit V V)
    (initial : State V) : (Invariant.trivial : Invariant V).Kept A ctx usual initial :=
  ⟨⟨⟩, fun _ _ _ _ => ⟨⟩, fun _ _ _ _ => ⟨⟩, fun _ _ _ _ _ _ _ _ _ => ⟨⟨⟩, ⟨⟩, ⟨⟩, fun _ _ _ _ _ _ => ⟨⟩⟩⟩

/-- A solution solves its graph as far as merged and widened states absorb what they were made
from. -/
theorem solves_of_absorbs {A : Analysis V} {exception : State V → State V → Prop}
    (merged : ∀ s, State.merge A.domain s s = s ∧ ¬ exception s s)
    (widened : ∀ previous next,
      State.merge A.domain (State.widen A.domain previous next) next = State.widen A.domain previous next ↔
        ¬ exception (State.widen A.domain previous next) next)
    {ctx : Context V} {ledger ledger' : Ledger V} {sol : Solution V} (valid : ctx.graph.Valid)
    (h : (A.solve ctx).run ledger = (.ok sol, ledger')) : sol.Solves A ctx exception := by
  obtain ⟨initial, p, m, hinitial, rfl, hholds, hsettled⟩ :=
    solve_holds (K := Invariant.trivial) h valid (fun _ _ => ⟨⟩)
      fun usual _ initial _ => Invariant.trivial_kept A ctx usual initial
  constructor
  · obtain ⟨first, hfirst, hentry⟩ := valid.block?_entry
    have hswept := mem_sweepOrder valid .entry hfirst
    obtain ⟨s, hs, -⟩ := hsettled first hswept initial (Progress.inflow_of_isEntry hentry)
    have : s = initial := (hholds.blocks first hswept s hs).2.1 hentry
    rw [valid.id_of_block? hfirst, this] at hs
    exact ⟨initial, hinitial, hs⟩
  · intro i hi hne
    obtain ⟨b, hb⟩ := valid.exists_of_reachable hi
    have hid := valid.id_of_block? hb
    have hentry : b.isEntry = false := by
      cases he : b.isEntry with
      | false => rfl
      | true =>
        rw [valid.isEntry_iff (Graph.mem_of_block? hb), hid] at he
        exact absurd he hne
    obtain ⟨input, hinput⟩ := exists_inflow_of_reachable valid hholds hsettled hi hb
    obtain ⟨s, hs, hsettle⟩ := hsettled b (mem_sweepOrder valid hi hb) input hinput
    rw [Progress.inflow_of_not_isEntry hentry, hid] at hinput
    rw [hid] at hs hsettle
    refine ⟨s, input, hs, hinput, ?_, fun hlt => ?_⟩
    · rcases hsettle with rfl | ⟨-, previous, -, rfl⟩
      · exact iff_of_true (merged s).1 (merged s).2
      · exact widened previous input
    · rcases hsettle with rfl | ⟨hle, -⟩
      · rfl
      · exact absurd hle (Nat.not_le.2 hlt)

/-- A solution solves its graph if widened values absorb what they were widened by. -/
theorem solves_of_values {A : Analysis V} (idem : ∀ a, A.domain.merge a a = a)
    (widened : ∀ old new,
      A.domain.merge (State.widenValue A.domain old new) new = State.widenValue A.domain old new)
    {ctx : Context V} {ledger ledger' : Ledger V} {sol : Solution V} (valid : ctx.graph.Valid)
    (h : (A.solve ctx).run ledger = (.ok sol, ledger')) : sol.Solves A ctx fun _ _ => False :=
  solves_of_absorbs (fun s => ⟨State.merge_self idem s, not_false⟩)
    (fun previous next => iff_of_true (State.merge_widen_of_values widened previous next) not_false) valid h

/-! ### A loop whose head loses a captured address -/

namespace CapturingLoop

/-- A local variable that holds references. -/
def pointer (name : String) : Symbol := Symbol.localVar name (some (TypeRef.reference "T"))

/-- What an operation carries. -/
def info (number : UInt32) : OperationInfo := ⟨⟨number⟩, some (TypeRef.reference "T"), ⟨0, 0⟩⟩

/-- Stores the address of `y` into `x`, over and over. -/
def graph : Graph where
  owner := ⟨"M", .method, none, none, .value, 0⟩
  parameters := []
  blocks :=
    [⟨⟨0⟩, .entry, [], none, [⟨⟨2⟩, .regular⟩], []⟩, ⟨⟨1⟩, .exit, [], none, [], []⟩,
      ⟨⟨2⟩, .block, [.assignment (info 3) (.localRef (info 0) (pointer "x"))
          (.capture (info 2) ⟨0⟩ (.localRef (info 1) (pointer "y")) true)],
        none, [⟨⟨2⟩, .regular⟩, ⟨⟨1⟩, .regular⟩], []⟩]

/-- Every visit of a block but the first one widens. -/
def context {V : Type} : Context V :=
  Context.start graph { Config.usual with visitsBeforeWidening := 0 } fun _ => none

/-- The state in which `x` has a value. -/
def holding {V : Type} (v : V) : State V := State.empty.insert (.localVar (pointer "x") graph.owner) v

/-- Nothing is untrusted. -/
def rules : TaintRules := TaintRules.ofConfig (KnownTypes.ofList []) TaintConfig.empty

theorem graph_valid : graph.Valid := by decide +kernel

end CapturingLoop

/-! ### The four analyses -/

/-- Whatever the configuration and the caller, solutions of all four analyses solve a valid
graph; those of the points-to analysis with an exception. -/
theorem solve_solves {graph : Graph} (valid : graph.Valid) (rules : TaintRules) :
    (∀ (ctx : Context PointsTo) (ledger ledger' : Ledger PointsTo) (sol : Solution PointsTo),
      ctx.graph = graph → (pointsTo.solve ctx).run ledger = (.ok sol, ledger') →
        sol.Solves pointsTo ctx State.LosesCapture) ∧
    (∀ (ctx : Context CopyClass) (ledger ledger' : Ledger CopyClass) (sol : Solution CopyClass),
      ctx.graph = graph → (copies.solve ctx).run ledger = (.ok sol, ledger') →
        sol.Solves copies ctx fun _ _ => False) ∧
    (∀ (ctx : Context Content) (ledger ledger' : Ledger Content) (sol : Solution Content),
      ctx.graph = graph → (contents.solve ctx).run ledger = (.ok sol, ledger') →
        sol.Solves contents ctx fun _ _ => False) ∧
    (∀ (ctx : Context Taint) (ledger ledger' : Ledger Taint) (sol : Solution Taint),
      ctx.graph = graph → ((taint rules).solve ctx).run ledger = (.ok sol, ledger') →
        sol.Solves (taint rules) ctx fun _ _ => False) := by
  refine ⟨?_, ?_, ?_, ?_⟩
  · rintro ctx ledger ledger' sol rfl h
    refine solves_of_absorbs (fun s => ⟨State.merge_self PointsTo.merge_self s, ?_⟩)
      State.merge_widen_pointsTo_iff valid h
    rintro ⟨e, c, hu, hc⟩
    rw [hu] at hc
    cases hc
  · rintro ctx ledger ledger' sol rfl h
    exact solves_of_values CopyClass.merge_self CopyClass.merge_widenValue valid h
  · rintro ctx ledger ledger' sol rfl h
    exact solves_of_values Content.merge_self Content.merge_widenValue valid h
  · rintro ctx ledger ledger' sol rfl h
    exact solves_of_values Taint.merge_self Taint.merge_widenValue valid h

open CapturingLoop in
/-- At the head of the loop `x` is widened to unknown objects, but the loop leaves the address of
captured storage in it. Merging this into the head gives up that `x` is not null. -/
theorem solve_loses_capture :
    ∃ sol ledger, (pointsTo.solve context).run (Ledger.start false) = (.ok sol, ledger) ∧
      graph.Valid ∧ graph.Reachable ⟨2⟩ ∧
        ∃ s input, sol.entries.find? ⟨2⟩ = some s ∧ sol.inflow Domain.pointsTo ⟨2⟩ = some input ∧
          State.merge Domain.pointsTo s input ≠ s := by
  have ends : ((pointsTo.solve context).run (Ledger.start false)).1.toOption.map
      (fun sol => (sol.entries.find? ⟨2⟩, sol.inflow Domain.pointsTo ⟨2⟩)) =
        some (some (holding .unknownNotNull), some (holding (.captures [⟨2⟩]))) := by
    decide +kernel
  obtain ⟨sol, ledger, h⟩ :=
    exists_of_isOk (r := (pointsTo.solve context).run (Ledger.start false)) (by decide +kernel)
  rw [h] at ends
  simp only [Except.toOption, Option.map_some, Option.some.injEq, Prod.mk.injEq] at ends
  refine ⟨sol, ledger, h, graph_valid, .branch .entry (by decide +kernel), _, _, ends.1, ends.2, ?_⟩
  decide +kernel

open CapturingLoop in
theorem solve_solves_capturingLoop :
    (∃ sol ledger, (pointsTo.solve context).run (Ledger.start false) = (.ok sol, ledger) ∧
      sol.Solves pointsTo context State.LosesCapture) ∧
    (∃ sol ledger, (copies.solve context).run (Ledger.start false) = (.ok sol, ledger) ∧
      sol.Solves copies context fun _ _ => False) ∧
    (∃ sol ledger, (contents.solve context).run (Ledger.start false) = (.ok sol, ledger) ∧
      sol.Solves contents context fun _ _ => False) ∧
    ∃ sol ledger, ((taint rules).solve context).run (Ledger.start false) = (.ok sol, ledger) ∧
      sol.Solves (taint rules) context fun _ _ => False := by
  obtain ⟨onPointsTo, onCopies, onContents, onTaint⟩ := solve_solves graph_valid rules
  refine ⟨?_, ?_, ?_, ?_⟩
  · obtain ⟨sol, ledger, h⟩ :=
      exists_of_isOk (r := (pointsTo.solve context).run (Ledger.start false)) (by decide +kernel)
    exact ⟨sol, ledger, h, onPointsTo context _ ledger sol rfl h⟩
  · obtain ⟨sol, ledger, h⟩ :=
      exists_of_isOk (r := (copies.solve context).run (Ledger.start false)) (by decide +kernel)
    exact ⟨sol, ledger, h, onCopies context _ ledger sol rfl h⟩
  · obtain ⟨sol, ledger, h⟩ :=
      exists_of_isOk (r := (contents.solve context).run (Ledger.start false)) (by decide +kernel)
    exact ⟨sol, ledger, h, onContents context _ ledger sol rfl h⟩
  · obtain ⟨sol, ledger, h⟩ :=
      exists_of_isOk (r := ((taint rules).solve context).run (Ledger.start false)) (by decide +kernel)
    exact ⟨sol, ledger, h, onTaint context _ ledger sol rfl h⟩

end Analysis

end Dataflow
