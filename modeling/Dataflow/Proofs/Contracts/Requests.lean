import Dataflow.Proofs.Contracts.Analyses
import Dataflow.Session.Basic

/-!
# Requests break no rule

Whatever is requested of a session, constructors are used rightly in all runs that this causes: in
the runs of the analyses that others depend on, and in the runs over callees, to any depth.

## What is proved

A request never fails because a rule of a constructor was broken (`Request.Rightful`); the one rule
that can be broken is that counts fit a machine word. The joins of the solver are
not checked; but every run of a session does the same if they are made by constructors
(`analyzeMethod_breaks_no_rule`).
-/

namespace Dataflow

/-- Whatever is on the desk, the answer is not that a rule was broken, but for counts that do not fit a word. -/
def Request.Rightful {α : Type} (x : Request α) : Prop :=
  ∀ desk v, v ≠ .countOverflow → (x.run desk).1 ≠ .error (.violated v)

namespace Request.Rightful

variable {α β : Type} {x : Request α}

theorem pure (a : α) : Rightful (pure a) := fun _ _ _ h => by cases h

theorem bind {f : α → Request β} (h : Rightful x) (h' : ∀ a, Rightful (f a)) : Rightful (x >>= f) := by
  intro desk v hv
  have first := h desk v hv
  rw [Visit.run_bind]
  rcases hr : x.run desk with ⟨e | a, desk'⟩
  · rw [hr] at first
    exact fun h => first (congrArg _ (Except.error.inj h))
  · exact h' a desk' v hv

/-- A result that is on file breaks no rule; so a request does if its computation does. -/
theorem request {view : Cache.View Outcome β} {key : CacheKey (Option TaintConfig)}
    {compute : ExceptT Failure (StateM Journal) β}
    (h : ∀ j v, v ≠ .countOverflow → (compute.run j).1 ≠ .error (.violated v)) :
    Rightful (Cache.request view .mistyped key compute) := by
  rintro ⟨c, j⟩ v hv
  show (Cache.request view Failure.mistyped key compute (c, j)).1 ≠ _
  have computed := h j v hv
  unfold Cache.request
  dsimp only
  cases c.find? key with
  | some stored =>
    dsimp only
    cases view.read stored.value with
    | some value => exact fun h => by cases h
    | none => exact fun h => by cases h
  | none =>
    dsimp only
    rcases hr : compute.run j with ⟨e | value, j'⟩
    · rw [hr] at computed
      exact fun h => computed (congrArg _ (Except.error.inj h))
    · exact fun h => by cases h

end Request.Rightful

namespace Session

open Request (Rightful)

section Requests

variable {s : Session} {g : LoadedGraph} {config : Config}

/-- A run that an analysis is requested for. What is prepared does not say which state the body starts in. -/
theorem compute_rightful {V : Type} [DecidableEq V] {view : Cache.View Outcome (Solution V)} {A B : Analysis V}
    {C : Constructors V} {valid : V → Prop} (U : A.Upright B C valid) {discriminator : Option TaintConfig}
    {prepare : Context V → Context V} (entry : (prepare (Context.start g.graph config s.bodies)).entry = none) :
    Rightful (s.compute view A g config discriminator prepare) := by
  refine .request fun j v hv h => hv ?_
  let journal := if s.observed then j.log (.started A.kind g.graph.owner) else j
  exact (U.run_solveBy entry journal.cancelled).2 v _ (Prod.ext h rfl)

theorem pointsTo_rightful : Rightful (s.pointsTo g config) := compute_rightful Analysis.pointsTo_upright rfl

theorem pointsToFor_rightful : Rightful (s.pointsToFor g config) := by
  unfold pointsToFor
  split
  · exact .pure _
  · exact pointsTo_rightful.bind fun _ => .pure _

theorem copy_rightful : Rightful (s.copy g config) :=
  pointsToFor_rightful.bind fun _ => compute_rightful Analysis.copies_upright rfl

theorem copyFor_rightful : Rightful (s.copyFor g config) := by
  unfold copyFor
  split
  · exact .pure _
  · exact copy_rightful.bind fun _ => .pure _

theorem analyze_rightful {kind : AnalysisKind} {taint : TaintConfig} : Rightful (s.analyze kind g config taint) := by
  unfold analyze
  cases kind with
  | pointsTo => exact pointsTo_rightful.bind fun _ => .pure _
  | copy => exact copy_rightful.bind fun _ => .pure _
  | valueContent =>
    refine Rightful.bind ?_ fun _ => .pure _
    exact pointsToFor_rightful.bind fun _ => copyFor_rightful.bind fun _ => compute_rightful Analysis.contents_upright rfl
  | taintedData =>
    refine Rightful.bind ?_ fun _ => .pure _
    exact pointsToFor_rightful.bind fun _ => compute_rightful (Analysis.taint_upright _) rfl

end Requests

/-- No analysis that is requested fails because a rule of a constructor was broken, in its own run or in those that it
causes. Nor would any rule be broken if all values were made by constructors, joins included: then each run, to any depth of
calls, does the same. -/
theorem analyzeMethod_breaks_no_rule (s : Session) (kind : AnalysisKind) (method : Symbol) (config : Config)
    (taint : TaintConfig) (desk : Desk) (cancelled : Bool) :
    (∀ v, v ≠ .countOverflow → ((s.analyzeMethod kind method config taint).run desk).1 ≠ .error (.violated v)) ∧
      (∀ ctx, ctx.entry = none →
        (Analysis.pointsToChecked.solveBy Constructors.pointsTo.joining ctx).run (Ledger.start cancelled) =
          (Analysis.pointsTo.solve ctx).run (Ledger.start cancelled)) ∧
      (∀ ctx, ctx.entry = none →
        (Analysis.copiesChecked.solveBy Constructors.copies.joining ctx).run (Ledger.start cancelled) =
          (Analysis.copies.solve ctx).run (Ledger.start cancelled)) ∧
      ∀ ctx, ctx.entry = none →
        (Analysis.contentsChecked.solveBy Constructors.contents.joining ctx).run (Ledger.start cancelled) =
          (Analysis.contents.solve ctx).run (Ledger.start cancelled) := by
  refine ⟨fun v hv => ?_, fun ctx entry => (Analysis.pointsTo_upright.run_solveBy entry cancelled).1,
    fun ctx entry => (Analysis.copies_upright.run_solveBy entry cancelled).1,
    fun ctx entry => (Analysis.contents_upright.run_solveBy entry cancelled).1⟩
  have rightful : Rightful (s.analyzeMethod kind method config taint) := by
    unfold analyzeMethod
    split
    · exact analyze_rightful.bind fun _ => .pure _
    · exact .pure _
  exact rightful desk v hv

/-! ### An object or null -/

namespace ObjectOrNull

/-- What an operation carries. -/
def info (number : UInt32) : OperationInfo := ⟨⟨number⟩, none, ⟨0, 0⟩⟩

/-- The local that is returned. -/
def x : Symbol := Symbol.localVar "x" none

/-- A method that is called. -/
def callee : Symbol := Symbol.method "C" "choose" none

/-- A method that calls it. -/
def caller : Symbol := Symbol.method "C" "use" none

/-- Stores null into `x`, and on one of two ways a new object; then returns `x`. -/
def choose : Graph where
  owner := callee
  parameters := []
  blocks :=
    [⟨⟨0⟩, .entry, [.assignment (info 2) (.localRef (info 0) x) (.literal (info 1) .null)], none,
        [⟨⟨1⟩, .whenTrue⟩, ⟨⟨2⟩, .whenFalse⟩], []⟩,
      ⟨⟨1⟩, .block, [.assignment (info 5) (.localRef (info 3) x) (.objectCreation (info 4) [])], none,
        [⟨⟨2⟩, .regular⟩], []⟩,
      ⟨⟨2⟩, .exit, [.ret (info 7) (some (.localRef (info 6) x))], none, [], []⟩]

/-- Calls the method and returns what it returns. -/
def use : Graph where
  owner := caller
  parameters := []
  blocks :=
    [⟨⟨0⟩, .entry, [.ret (info 1) (some (.invocation (info 0) callee none []))], none, [⟨⟨1⟩, .regular⟩], []⟩,
      ⟨⟨1⟩, .exit, [], none, [], []⟩]

/-- The session that has both bodies. -/
def session : Session where
  provider := some fun m =>
    if m = callee then some ⟨.single 0, choose⟩ else if m = caller then some ⟨.single 1, use⟩ else none
  types := KnownTypes.ofList []
  observed := false

/-- Calls are followed in context. -/
def config : Config := { Config.usual with calls := CallConfig.usual .inContext }

/-- The body that calls, in no context. -/
def context {V : Type} : Context V := Context.start use config session.bodies

end ObjectOrNull

open ObjectOrNull in
/-- The callee joins the object and null; that is what the caller returns, with and without constructors. -/
theorem analyzeMethod_breaks_no_rule_objectOrNull :
    Violation.noLocations ≠ .countOverflow ∧
      ((session.analyzeMethod .pointsTo caller config TaintConfig.empty).run Desk.clean).1 ≠
        .error (.violated .noLocations) ∧
      (context (V := PointsTo)).entry = none ∧
      (Analysis.pointsToChecked.solveBy Constructors.pointsTo.joining context).run (Ledger.start false) =
        (Analysis.pointsTo.solve context).run (Ledger.start false) ∧
      ((Analysis.pointsTo.solve context).run (Ledger.start false)).1.toOption.bind (·.returned) =
        some (.known [.null, .allocation ⟨4⟩ callee none [⟨0⟩]] .maybeNull) := by
  obtain ⟨rightful, same, -, -⟩ :=
    analyzeMethod_breaks_no_rule session .pointsTo caller config TaintConfig.empty Desk.clean false
  exact ⟨by decide, rightful _ (by decide), rfl, same context rfl, by decide +kernel⟩

end Session

end Dataflow
