import Dataflow.Analysis.PointsTo
import Dataflow.Proofs.PointsTo.Values
import Dataflow.Proofs.Variables.Pointwise
import Dataflow.Proofs.Variables.Solution

/-!
# Variables hold what their points-to values allow

Before an operation the points-to analysis has a points-to value for each variable. In all runs
of a body over variables that makes objects and arrays and converts values, a variable with a
value holds null only if it may be null there, and otherwise something that is not null and has
one of the locations, unless nothing is said about them.

## What is proved

`reading_sound` for the hooks, and `solve_pointsTo` for solutions. A local that is not assigned
yet has an undefined value, which allows nothing; it has no value in a run either.
-/

namespace Dataflow

namespace Analysis.PointsToAnalysis

/-- Variables hold what their points-to values allow. -/
def reading (ctx : Context PointsTo) : Reading PointsTo Reference :=
  .pointwise Domain.pointsTo ctx.owner (PointsTo.Allows ctx.owner ctx.callSites) fun _ => True

variable {ctx : Context PointsTo} {s : State PointsTo} {σ : Store Reference}

/-- A new object has the location of the operation that makes it. -/
theorem ensures_allocation (op : Operation) (m : Machine PointsTo) :
    Visit.Ensures (allocation ctx op) m fun a m' =>
      m' = m ∧ a.Allows ctx.owner ctx.callSites (.created op.id) := by
  unfold allocation
  rw [Visit.ensures_check]
  intro a ha
  exact ⟨rfl, PointsTo.ofLocation_allows ha ⟨op.type, rfl⟩⟩

/-- A parameter that holds references starts as null or as an object of its own. -/
theorem parameterValue_allows {x : Symbol} {a : PointsTo} {v : Reference}
    (h : parameterValue (.localVar x ctx.owner) = .ok a) (hv : Meaning.ofReferences.parameter x v) :
    a.Allows ctx.owner ctx.callSites v := by
  have hkind : (Entity.localVar x ctx.owner).isReference = TypeRef.holdsReference x.type := rfl
  unfold parameterValue at h
  rw [hkind] at h
  unfold Meaning.ofReferences at hv
  dsimp only at hv
  cases href : TypeRef.holdsReference x.type with
  | false =>
    rw [href] at h hv
    obtain rfl := Except.ok.inj h
    rw [show v = .plain by simpa using hv]
    exact PointsTo.noLocation_allows
  | true =>
    rw [href] at h hv
    have hlocation : PointsTo.ofLocation (.entity (.localVar x ctx.owner)) true = .ok a := h
    rcases (show v = .null ∨ v = .passed x by simpa using hv) with rfl | rfl
    · exact PointsTo.ofLocation_allows_null hlocation
    · exact PointsTo.ofLocation_allows hlocation rfl

/-- Every hook keeps variables within their points-to values. -/
theorem reading_sound (entry : ctx.entry = none) (usual : Call PointsTo → Visit PointsTo PointsTo) :
    (reading ctx).Sound .withObjects Meaning.ofReferences pointsTo ctx usual where
  good_merge := fun _ _ _ _ => trivial
  good_widen := fun _ _ _ _ => trivial
  fits_merge := fun _ _ _ _ _ => Reading.fits_merge_of_values PointsTo.merge_self fun _ _ _ => PointsTo.merge_allows
  fits_widen := fun _ _ _ _ _ =>
    Reading.fits_widen_of_values PointsTo.merge_self fun _ _ _ => PointsTo.widenValue_allows
  initial := fun s h =>
    ⟨trivial, fun σ hσ => Reading.fits_initialState entry h hσ fun _ _ _ ha hv => parameterValue_allows ha hv⟩
  literal := by
    intro i l s σ v _ _ hv
    have hvalue : v = if l = .null then .null else .plain := hv
    rw [hvalue]
    show (PointsToAnalysis.literal l).Allows _ _ _
    cases l with
    | null => exact PointsTo.nullLocation_allows
    | _ => exact PointsTo.noLocation_allows
  reference := by
    intro op x m _ _
    show Visit.Ensures (do return State.valueOr Domain.pointsTo (← Visit.state) _) m _
    rw [Visit.ensures_bind, Visit.ensures_state, Visit.ensures_pure]
    exact ⟨rfl, .refl m, fun σ v hσ hx => hσ x v hx⟩
  assign := by
    intro i target value x m a _ _
    show Visit.Ensures (do
      Visit.update fun s => .ok (State.write Domain.pointsTo (.localVar x ctx.owner) a s)
      return a) m _
    rw [Visit.ensures_bind, Visit.ensures_update]
    intro s hs
    rw [Visit.ensures_pure]
    obtain rfl := Except.ok.inj hs
    refine ⟨trivial, ⟨rfl, rfl, rfl, rfl⟩, fun σ v hσ ha _ => ⟨?_, ha⟩⟩
    rw [State.write_of_isMethodLocal _ _ _ rfl]
    refine Reading.fits_insert hσ fun w hw => ?_
    rw [← Option.some.inj hw]
    exact ha
  binary := by
    intro i operator left right m a b _
    show Visit.Ensures (PointsToAnalysis.binary ctx (.binary i operator left right) operator) m _
    unfold PointsToAnalysis.binary
    split
    · rename_i htext
      refine (ensures_allocation _ m).mono fun c m' hc => ?_
      obtain ⟨rfl, hallows⟩ := hc
      refine ⟨rfl, .refl m', ?_⟩
      rintro σ u v w - - - hw
      rw [show w = _ from hw.trans (if_pos htext)]
      exact hallows
    · rename_i htext
      rw [Visit.ensures_pure]
      refine ⟨rfl, .refl m, ?_⟩
      rintro σ u v w - - - hw
      rw [show w = _ from hw.trans (if_neg htext)]
      exact PointsTo.noLocation_allows
  convert := by
    intro _ i operand m a _
    show Visit.Ensures (pure (if (Operation.conversion i operand).isReferenceType then a else .noLocation)) m _
    rw [Visit.ensures_pure]
    refine ⟨rfl, .refl m, fun σ v w _ ha hw => ?_⟩
    have hvalue : w = if (Operation.conversion i operand).isReferenceType then v else .plain := hw
    rw [hvalue]
    cases (Operation.conversion i operand).isReferenceType with
    | true => exact ha
    | false => exact PointsTo.noLocation_allows
  create := by
    intro _ i arguments m as _
    refine (ensures_allocation (.objectCreation i arguments) m).mono fun a m' ha => ?_
    obtain ⟨rfl, hallows⟩ := ha
    refine ⟨rfl, .refl m', fun σ vs w _ _ hw => ?_⟩
    rw [show w = .created _ from hw]
    exact hallows
  createArray := by
    intro _ i dimensions m _
    refine (ensures_allocation (.arrayCreation i dimensions) m).mono fun a m' ha => ?_
    obtain ⟨rfl, hallows⟩ := ha
    refine ⟨rfl, .refl m', fun σ w _ hw => ?_⟩
    rw [show w = .created _ from hw]
    exact hallows
  invoke := fun h => by cases h
  forget := by
    intro x s s' _ hf
    obtain rfl := Except.ok.inj hf
    exact ⟨trivial, fun σ hσ => Reading.fits_erase hσ⟩

end Analysis.PointsToAnalysis

namespace Analysis

/-- Whenever control is before an operation, a variable that holds null may be null there, and one
that holds anything else may be not null and has its location: for any body over variables that
makes objects and arrays and converts values, in all of its runs. -/
theorem solve_pointsTo {ctx : Context PointsTo} {ledger ledger' : Ledger PointsTo} {sol : Solution PointsTo}
    (h : (pointsTo.solve ctx).run ledger = (.ok sol, ledger')) (valid : ctx.graph.Valid)
    (within : ctx.graph.Within .withObjects) (distinct : ctx.graph.DistinctIds) (entry : ctx.entry = none)
    {b : Block} {op : Operation} {ops : List Operation} {σ : Store Reference}
    (hreached : Reached Meaning.ofReferences ctx.graph b (op :: ops) σ) :
    ∃ s, sol.stateBefore op.id = some s ∧ ∀ x v, σ x = some v →
      let a := State.valueOr Domain.pointsTo s (.localVar x ctx.owner)
      (v = .null → a.nullness = .null ∨ a.nullness = .maybeNull) ∧
        (v ≠ .null → a.nullness = .notNull ∨ a.nullness = .maybeNull) ∧
          (∀ id, v = .created id → a.isUnknown = true ∨
            ∃ type, Location.allocation id ctx.owner type ctx.callSites ∈ a.locations) ∧
            (∀ y, v = .passed y → a.isUnknown = true ∨ Location.entity (.localVar y ctx.owner) ∈ a.locations) ∧
              (v = .plain → a.isUnknown = true ∨ Location.noLocation ∈ a.locations) := by
  obtain ⟨⟨s, hbefore, hfits⟩, -⟩ :=
    run_explained (fun usual _ => PointsToAnalysis.reading_sound entry usual) valid within distinct h
      (fun _ _ _ _ _ _ => trivial) hreached
  refine ⟨s, hbefore, fun x v hx => ?_⟩
  have hallows : PointsTo.Allows _ _ _ v := hfits x v hx
  refine ⟨?_, fun hv => (hallows.located hv).1, ?_, ?_, ?_⟩
  · rintro rfl
    exact hallows.nullness_of_null
  · rintro id rfl
    refine (hallows.located (by simp)).2.imp_right ?_
    rintro ⟨l, hl, type, rfl⟩
    exact ⟨type, hl⟩
  · rintro y rfl
    refine (hallows.located (by simp)).2.imp_right ?_
    rintro ⟨l, hl, rfl⟩
    exact hl
  · rintro rfl
    refine (hallows.located (by simp)).2.imp_right ?_
    rintro ⟨l, hl, rfl⟩
    exact hl

/-! ### Null and an object, stored in a row -/

namespace StoredObject

open TwoStores

/-- Stores null into `a` and a new object into `b`. The reference to `b` has the given identifier. -/
def graph (number : UInt32) : Graph :=
  TwoStores.graph number [] (.literal (info 1) .null) (.objectCreation (info 4) [])

/-- The body is run as usual. -/
def context (number : UInt32) : Context PointsTo := Context.start (graph number) Config.usual fun _ => none

/-- The store before the return. -/
def finish : Store Reference := (Store.set (fun _ => none) first (some .null)).set second (some (.created ⟨4⟩))

/-- Control comes to the return with null in `a` and the object in `b`. -/
theorem reached (number : UInt32) :
    Reached Meaning.ofReferences (graph number)
      (block number (.literal (info 1) .null) (.objectCreation (info 4) [])) [.ret (info 6) none] finish := by
  have created : Step Meaning.ofReferences (.objectCreation (info 4) []) (List.map some [])
      (Store.set (fun _ => none) first (some .null)) (some (.created ⟨4⟩))
      (Store.set (fun _ => none) first (some .null)) :=
    .creation rfl
  exact TwoStores.reached (fun x v hx => by cases hx) (.step .nil (.literal rfl)) (.step .nil created)

end StoredObject

open StoredObject in
/-- With distinct identifiers `a` may be null and `b` points to the object. -/
theorem solve_pointsTo_storedObject :
    ∃ sol ledger, (pointsTo.solve (context 3)).run (Ledger.start false) = (.ok sol, ledger) ∧
      ∃ s, sol.stateBefore ⟨6⟩ = some s ∧ ∀ x v, finish x = some v →
        let a := State.valueOr Domain.pointsTo s (.localVar x (graph 3).owner)
        (v = .null → a.nullness = .null ∨ a.nullness = .maybeNull) ∧
          (v ≠ .null → a.nullness = .notNull ∨ a.nullness = .maybeNull) ∧
            (∀ id, v = .created id → a.isUnknown = true ∨
              ∃ type, Location.allocation id (graph 3).owner type (context 3).callSites ∈ a.locations) ∧
              (∀ y, v = .passed y → a.isUnknown = true ∨ Location.entity (.localVar y (graph 3).owner) ∈ a.locations) ∧
                (v = .plain → a.isUnknown = true ∨ Location.noLocation ∈ a.locations) := by
  obtain ⟨sol, ledger, h⟩ :=
    exists_of_isOk (r := (pointsTo.solve (context 3)).run (Ledger.start false)) (by decide +kernel)
  exact ⟨sol, ledger, h, solve_pointsTo h (by decide +kernel) (by decide +kernel) (by decide +kernel) rfl
    (StoredObject.reached 3)⟩

open StoredObject in
/-- If the reference to `b` has the identifier of the one to `a`, it is taken for `a`: before the
return `a` is not null for the analysis, but it holds null. -/
theorem solve_pointsTo_mistakes_reference :
    ∃ sol ledger, (pointsTo.solve (context 0)).run (Ledger.start false) = (.ok sol, ledger) ∧
      (graph 0).Valid ∧ (graph 0).Within .withObjects ∧ (context 0).entry = none ∧
        ∃ b s, Reached Meaning.ofReferences (graph 0) b [.ret (TwoStores.info 6) none] finish ∧
          sol.stateBefore ⟨6⟩ = some s ∧ finish TwoStores.first = some .null ∧
            (State.valueOr Domain.pointsTo s (.localVar TwoStores.first (graph 0).owner)).nullness = .notNull := by
  have nullness : ((pointsTo.solve (context 0)).run (Ledger.start false)).1.toOption.bind (fun sol =>
      (sol.stateBefore ⟨6⟩).map fun s =>
        (State.valueOr Domain.pointsTo s (.localVar TwoStores.first (graph 0).owner)).nullness) = some .notNull := by
    decide +kernel
  obtain ⟨sol, ledger, s, h, hs, hnotNull⟩ := exists_of_inspected nullness
  exact ⟨sol, ledger, h, by decide +kernel, by decide +kernel, rfl, _, s, StoredObject.reached 0, hs, rfl, hnotNull⟩

end Analysis

end Dataflow
