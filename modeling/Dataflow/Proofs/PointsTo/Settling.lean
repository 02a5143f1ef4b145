import Dataflow.Analysis.PointsTo
import Dataflow.Proofs.Lattice.Chains
import Dataflow.Proofs.Lattice.Laws
import Dataflow.Proofs.Settling.Bounds
import Mathlib.Data.Finite.Prod

/-!
# Points-to values keep to bounds

The points-to analysis names fields and elements by its own values, which may themselves be made of names. So it
can do with finitely many values only, and it owes that from finitely many values a visit makes
finitely many.

## What is proved

`pointsTo_keeps`. A write makes merges of the old values with the new one (`write_fits`). An opaque call may
write to any entity any number of times, in an order that depends on the state; but all that it writes are two
values, and with these every value is merged once at most (`escapes`).
-/

namespace Dataflow

namespace Ascending

/-- Inserting an element again changes nothing, in whatever order the list is. -/
theorem insert_insert {α : Type} [Ord α] [Std.ReflOrd α] (x : α) (l : List α) :
    insert id x (insert id x l) = insert id x l := by
  induction l with
  | nil => simp [insert, Std.ReflCmp.compare_self]
  | cons y l ih =>
    cases h : compare x y with
    | lt => simp [insert, h, Std.ReflCmp.compare_self]
    | eq => simp [insert, h, Std.ReflCmp.compare_self]
    | gt => simp [insert, h, ih]

end Ascending

namespace PointsTo

/-- What takes in a value without locations takes it in once. -/
theorem merge_noLocation_merge (v : PointsTo) : merge (merge v noLocation) noLocation = merge v noLocation := by
  cases v with
  | known l n =>
    by_cases h : known l n = noLocation
    · rw [h, merge_self, merge_self]
    · rw [noLocation, merge_of_ne_known h]
      by_cases h' : known (Ascending.union id l [.noLocation]) (n.merge .notNull) = known [.noLocation] .notNull
      · rw [h', merge_self]
      · rw [merge_of_ne_known h']
        have union : Ascending.union id (Ascending.union id l [.noLocation]) [.noLocation] =
            Ascending.union id l [.noLocation] := Ascending.insert_insert Location.noLocation l
        rw [union, Nullness.merge_assoc, Nullness.merge_self]
  | _ => simp [merge, noLocation, nullness, unknownWith, Nullness.merge]

end PointsTo

namespace Analysis

open Scope

/-- The scope of the points-to analysis: finitely many values. Only the names that they lead to matter, which
are not their business. -/
def references : Scope PointsTo := ⟨Set.Finite, fun _ => ∅⟩

namespace PointsToAnalysis

variable {B B' : Bounds PointsTo} {X : Set Entity} {s : State PointsTo} {ι : Type}
variable {admits : Bounds PointsTo → Set Entity → ι → Prop}

/-! ### Values without an effect -/

/-- Visits that change nothing and yield a result of an operand or one of finitely many other values. -/
theorem keeps_of_results {x : ι → Visit PointsTo PointsTo} {T : Set PointsTo} (hT : T.Finite)
    (h : ∀ B X i m, admits B X i → Visit.Yields (x i) m fun v m' => m' = m ∧ (v ∈ B.results ∨ v ∈ T)) :
    references.Keeps Domain.pointsTo admits x references.Says := by
  intro B hB
  refine ⟨B.withResults T, ⟨hB.values, hB.results.union hT, hB.names⟩, B.within_withResults T,
    fun X _ i m hi hm _ => ?_⟩
  refine (h B X i m hi).mono fun v m' after => ?_
  obtain ⟨hm', hv⟩ := after
  rw [hm']
  exact ⟨.refl m, rfl, hm.mono (B.within_withResults T), hv, Set.empty_subset _⟩

/-- A value that does not depend on the run. -/
theorem keeps_const (v : PointsTo) : references.Keeps Domain.pointsTo admits (fun _ => pure v) references.Says :=
  keeps_of_results (Set.finite_singleton v) fun _ _ _ _ _ => (Visit.yields_pure _ _ _).2 ⟨rfl, .inr rfl⟩

/-- The object that an operation creates is the same on every visit. -/
theorem keeps_allocation (ctx : Context PointsTo) (op : Operation) :
    references.Keeps Domain.pointsTo admits (fun _ => allocation ctx op) references.Says := by
  let v : PointsTo := .known [.allocation op.id ctx.owner op.type ctx.callSites] .notNull
  refine keeps_of_results (Set.finite_singleton v) fun _ _ _ _ _ => ?_
  unfold allocation
  rw [Visit.yields_check]
  exact ⟨v, rfl, rfl, .inr rfl⟩

/-! ### The state -/

/-- A read yields a value of an entity that may be named. -/
theorem keeps_read (u : PointsTo) :
    references.Keeps Domain.pointsTo references.Names (fun e : Option Entity => match e with
      | some e => do return State.valueOr Domain.pointsTo (← Visit.state) e
      | none => return u) references.Says := by
  intro B hB
  have finite : (insert u (⋃ e ∈ B.names, B.values e)).Finite := (hB.names.biUnion fun e _ => hB.values e).insert u
  refine ⟨B.withResults _, ⟨hB.values, hB.results.union finite, hB.names⟩, B.within_withResults _,
    fun X _ e m he hm _ => ?_⟩
  cases e with
  | none =>
    rw [Visit.yields_pure]
    exact ⟨.refl m, rfl, hm.mono (B.within_withResults _), .inr (Set.mem_insert _ _), Set.empty_subset _⟩
  | some e =>
    rw [Visit.yields_bind, Visit.yields_state, Visit.yields_pure]
    refine ⟨.refl m, rfl, hm.mono (B.within_withResults _), .inr (Set.mem_insert_of_mem _ ?_), Set.empty_subset _⟩
    exact Set.mem_biUnion (he e rfl) (hm.values e)

theorem covered_write (h : references.Covered X s) {e : Entity} (he : e ∈ X) (v : PointsTo) :
    references.Covered X (State.write Domain.pointsTo e v s) :=
  h.write (fun _ => Set.empty_subset _) (fun _ _ => Set.empty_subset _) he (Set.empty_subset _)

/-- A write keeps to values that take in the new one. -/
theorem write_fits {e : Entity} {v : PointsTo} (h : references.Fits Domain.pointsTo B X s) (he : e ∈ X)
    (old : ∀ a, B.values a ⊆ B'.values a) (merged : ∀ a, ∀ w ∈ B.values a, PointsTo.merge w v ∈ B'.values a)
    (new : ∀ a, v ∈ B'.values a) : references.Fits Domain.pointsTo B' X (State.write Domain.pointsTo e v s) := by
  refine ⟨fun a => ?_, covered_write h.covered he v⟩
  rcases State.valueOr_write Domain.pointsTo e v s a with ha | ha | ha
  · rw [ha]
    exact old a (h.values a)
  · rw [ha]
    exact merged a _ (h.values a)
  · rw [ha]
    exact new a

theorem assign_keeps :
    references.Keeps Domain.pointsTo (fun B X i => references.Names B X i.1 ∧ references.Says B X i.2)
      (fun i : Option Entity × PointsTo => do
        match i.1 with
        | some target => Visit.update (pointsTo.write target i.2)
        | none => pure ()
        return i.2) references.Says := by
  intro B hB
  let values : Entity → Set PointsTo := fun e => B.values e ∪ (B.results ∪ Set.image2 PointsTo.merge (B.values e) B.results)
  have within : B.Within { B with values } := ⟨fun _ => Set.subset_union_left, subset_rfl, subset_rfl⟩
  have small : references.Small { B with values } :=
    ⟨fun e => (hB.values e).union (hB.results.union (Set.Finite.image2 _ (hB.values e) hB.results)), hB.results, hB.names⟩
  refine ⟨_, small, within, fun X hX i m hi hm _ => ?_⟩
  obtain ⟨target, v⟩ := i
  obtain ⟨he, hv⟩ := hi
  cases target with
  | none =>
    show Visit.Yields (pure v) m _
    rw [Visit.yields_pure]
    exact ⟨.refl m, rfl, hm.mono within, hv.mono within⟩
  | some e =>
    show Visit.Yields (do
      Visit.update (pointsTo.write e v)
      return v) m _
    rw [Visit.yields_bind, Visit.yields_update]
    refine ⟨_, rfl, ?_⟩
    rw [Visit.yields_pure]
    refine ⟨⟨rfl, rfl, rfl, rfl⟩, rfl, ?_, hv.mono within⟩
    exact write_fits hm (hX (he e rfl)) within.values (fun a w hw => .inr (.inr (Set.mem_image2_of_mem hw hv.1)))
      fun a => .inr (.inl hv.1)

/-- The values that an entity may have once it has escaped. -/
def escapedValues (T : Set PointsTo) : Set PointsTo :=
  T ∪ ((PointsTo.merge · PointsTo.noLocation) '' T ∪ {.unknown, PointsTo.noLocation})

theorem escapedValues_finite {T : Set PointsTo} (hT : T.Finite) : (escapedValues T).Finite :=
  hT.union ((hT.image _).union (Set.toFinite _))

theorem escaped_mem (T : Set PointsTo) (isReference : Bool) : unknown isReference ∈ escapedValues T := by
  cases isReference with
  | false => exact .inr (.inr (.inr rfl))
  | true => exact .inr (.inr (.inl rfl))

/-- Escaping again leads to no further values. -/
theorem merge_escaped_mem {T : Set PointsTo} {v : PointsTo} (h : v ∈ escapedValues T) (isReference : Bool) :
    PointsTo.merge v (unknown isReference) ∈ escapedValues T := by
  cases isReference with
  | true =>
    rw [show PointsTo.merge v (unknown true) = .unknown from PointsTo.merge_unknown v]
    exact escaped_mem T true
  | false =>
    show PointsTo.merge v PointsTo.noLocation ∈ escapedValues T
    rcases h with h | ⟨w, hw, rfl⟩ | h | h
    · exact .inr (.inl ⟨v, h, rfl⟩)
    · rw [PointsTo.merge_noLocation_merge]
      exact .inr (.inl ⟨w, hw, rfl⟩)
    · rw [show v = .unknown from h, PointsTo.unknown_merge]
      exact escaped_mem T true
    · rw [show v = PointsTo.noLocation from h, PointsTo.merge_self]
      exact escaped_mem T false

theorem escapes : references.Escapes pointsTo := by
  intro B hB
  refine ⟨{ B with values := fun e => escapedValues (B.values e) },
    ⟨fun e => escapedValues_finite (hB.values e), hB.results, hB.names⟩,
    ⟨fun _ => Set.subset_union_left, subset_rfl, subset_rfl⟩, rfl, fun X e he s hs => ⟨_, rfl, ?_⟩⟩
  exact write_fits hs he (fun _ => subset_rfl) (fun _ _ hw => merge_escaped_mem hw _) fun _ => escaped_mem _ _

theorem forget_keeps (e : Entity) :
    references.Keeps Domain.pointsTo admits (fun _ => Visit.update (pointsTo.forget e)) fun _ _ _ => True := by
  intro B hB
  refine ⟨{ B with values := fun a => insert (Domain.missingPointsTo a) (B.values a) },
    ⟨fun a => (hB.values a).insert _, hB.results, hB.names⟩,
    ⟨fun a => Set.subset_insert _ _, subset_rfl, subset_rfl⟩, fun X _ i m _ hm _ => ?_⟩
  rw [Visit.yields_update]
  refine ⟨_, rfl, ⟨rfl, rfl, rfl, rfl⟩, rfl, ⟨fun a => ?_, hm.covered.erase e⟩, trivial⟩
  by_cases hae : a = e
  · subst hae
    rw [State.valueOr_erase_self]
    exact Set.mem_insert _ _
  · rw [State.valueOr_erase_ne _ _ hae]
    exact Set.mem_insert_of_mem _ (hm.values a)

end PointsToAnalysis

open PointsToAnalysis

variable {ctx : Context PointsTo} {usual : Call PointsTo → Visit PointsTo PointsTo}

/-- Parameters and the receiver point to objects of their own. -/
theorem exists_parameterValue {e : Entity} (he : e ∈ initialEntities ctx) : ∃ v, PointsToAnalysis.parameterValue e = .ok v := by
  have method : e.isMethodLocal = true := by
    rcases List.mem_append.1 he with h | h
    · obtain ⟨x, -, rfl⟩ := List.mem_map.1 h
      rfl
    · split at h
      · rw [List.mem_singleton.1 h]
        rfl
      · cases h
  unfold PointsToAnalysis.parameterValue Location.ofEntity
  rw [Entity.hasUnknownOwner_of_isMethodLocal method]
  split
  · exact ⟨_, rfl⟩
  · exact ⟨_, rfl⟩

/-- The points-to analysis keeps to bounds. -/
theorem pointsTo_keeps (handling : ctx.config.calls.handling = .none) (husual : IsUsual pointsTo ctx usual) :
    references.Sound pointsTo ctx usual := by
  have unknown : references.Keeps Domain.pointsTo (fun _ _ _ => True) (fun op => pure (pointsTo.unknownValue op))
      references.Says := by
    refine keeps_of_results (T := {.unknown, PointsTo.noLocation}) (Set.toFinite _) fun _ _ op m _ => ?_
    rw [Visit.yields_pure]
    refine ⟨rfl, .inr ?_⟩
    show PointsToAnalysis.unknown op.isReferenceType ∈ _
    cases op.isReferenceType with
    | true => exact .inl rfl
    | false => exact .inr rfl
  exact {
    few_of_finite := fun _ h => h
    mentions_finite := fun _ => Set.finite_empty
    mentions_missing := fun _ => Set.empty_subset _
    mentions_merge := fun _ _ => Set.empty_subset _
    mentions_widen := fun _ _ => Set.empty_subset _
    descends := PointsTo.ranks.wellFounded_widenValue
    initial := exists_initialState fun _ => exists_parameterValue
    location := fun _ _ h => h.image _
    literal := fun _ l => keeps_const (PointsToAnalysis.literal l)
    reference := fun op => keeps_read (pointsTo.unknownValue op)
    assign := fun _ => assign_keeps
    create := fun op => keeps_allocation ctx op
    createArray := fun op => keeps_allocation ctx op
    binary := fun op operator => by
      show references.Keeps _ _ (fun _ => PointsToAnalysis.binary ctx op operator) _
      unfold PointsToAnalysis.binary
      split
      · exact keeps_allocation ctx op
      · exact keeps_const _
    convert := fun op => by
      refine keeps_of_results (Set.finite_singleton PointsTo.noLocation) fun B X v m hv => ?_
      show Visit.Yields (pure (if op.isReferenceType then v else PointsTo.noLocation)) m _
      rw [Visit.yields_pure]
      split
      · exact ⟨rfl, .inl hv.1⟩
      · exact ⟨rfl, .inr rfl⟩
    invoke := keeps_usual handling husual escapes unknown
    bottom := keeps_const _
    unknown := unknown
    forget := fun e => forget_keeps e }

end Analysis

end Dataflow
