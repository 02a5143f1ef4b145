import Dataflow.Proofs.Contracts.Joins
import Dataflow.Proofs.State.Order

/-!
# Merging states in any order

Where paths meet, the states at their ends are merged one after the other, in the order in which the graph
lists the predecessors. An entity that only some of the states mention has its default in the others.

## What is proved

States are merged alike in any order and however often each of them occurs (`mergeAll_congr`), in all four domains
(`merge_inAnyOrder`). The laws of values carry over to states, because a default merged with itself stays
what it is: whether an entity that a merge does not mention is taken in before or after it makes no
difference.
-/

namespace Dataflow

namespace State

variable {V : Type} {P : V → Prop} {D : Domain V}

/-- It makes no difference in which order states are merged, and how often each of them is. This is said of
the states all of whose values have a property. -/
structure MergesInAnyOrder (P : V → Prop) (D : Domain V) : Prop where
  /-- The order of two states does not matter. -/
  comm : ∀ a b : State V, a.Each P → b.Each P → merge D a b = merge D b a
  /-- The order in which several states are merged does not matter. -/
  assoc : ∀ a b c : State V, a.Each P → b.Each P → c.Each P →
    merge D (merge D a b) c = merge D a (merge D b c)
  /-- A state merged with itself stays as it is. -/
  idem : ∀ a : State V, a.Each P → merge D a a = a
  /-- Of some states it matters only which they are. -/
  all : ∀ l k : List (State V), l ≠ [] → (∀ s ∈ l, s.Each P) → (∀ s, s ∈ l ↔ s ∈ k) →
    ∃ t, mergeAll D l = some t ∧ mergeAll D k = some t
  /-- Of the predecessors of a block it matters only which they are. -/
  inflow : ∀ (g : Graph) (initial : State V) (p : Progress V) (b : Block) (l : List BlockId),
    b.isEntry = false → (∀ i s, p.exits.find? i = some s → s.Each P) → (∀ i, i ∈ l ↔ i ∈ g.predecessors b.id) →
    p.inflow D g initial b = mergeAll D (l.filterMap p.exits.find?)

section Laws

variable (law : IsSemilattice P D.merge D.top) (missing : ∀ e, P (D.missing e)) (idem : ∀ v, D.merge v v = v)
  {a b c s t u : State V} {l k : List (State V)}

include law missing

theorem Each.merge (ha : a.Each P) (hb : b.Each P) : (merge D a b).Each P :=
  each_tabulate fun e => law.closed _ _ (ha.valueOr missing e) (hb.valueOr missing e)

theorem merge_comm (ha : a.Each P) (hb : b.Each P) : State.merge D a b = State.merge D b a := by
  refine FinMap.ext fun e => ?_
  rw [find?_merge, find?_merge, law.comm _ _ (ha.valueOr missing e) (hb.valueOr missing e)]
  simp only [or_comm]

include idem

theorem merge_assoc (ha : a.Each P) (hb : b.Each P) (hc : c.Each P) :
    State.merge D (State.merge D a b) c = State.merge D a (State.merge D b c) := by
  refine FinMap.ext fun e => ?_
  have mentions (x y : State V) : ((State.merge D x y).find? e).isSome ↔ (x.find? e).isSome ∨ (y.find? e).isSome := by
    rw [find?_merge]
    split <;> simp [*]
  rw [find?_merge D (State.merge D a b) c, find?_merge D a (State.merge D b c), valueOr_merge idem, valueOr_merge idem,
    law.assoc _ _ _ (ha.valueOr missing e) (hb.valueOr missing e) (hc.valueOr missing e)]
  simp only [mentions, or_assoc]

/-! ### Several states -/

/-- Merged states have absorbed each of them. -/
theorem mergeAll_merge (hl : ∀ s ∈ l, s.Each P) (ht : mergeAll D l = some t) (hs : s ∈ l) : State.merge D t s = t := by
  have good : s.Each P := hl s hs
  refine mergeAll_of_mem (G := State.Each P) (P := fun x => State.merge D x s = x) (fun _ _ => Each.merge law missing)
    (fun a b ha hb absorbed => ?_) (fun a b ha hb absorbed => ?_) hl hs (State.merge_self idem s) ht
  · calc State.merge D (State.merge D a b) s = State.merge D (State.merge D b a) s := by rw [merge_comm law missing ha hb]
      _ = State.merge D b (State.merge D a s) := merge_assoc law missing idem hb ha good
      _ = State.merge D a b := by rw [absorbed, merge_comm law missing hb ha]
  · rw [merge_assoc law missing idem ha hb good, absorbed]

/-- A state that has absorbed each of some states has absorbed them merged. -/
theorem merge_mergeAll (hu : u.Each P) (hl : ∀ s ∈ l, s.Each P) (absorbed : ∀ s ∈ l, State.merge D u s = u)
    (ht : mergeAll D l = some t) : State.merge D u t = u := by
  refine (mergeAll_induction (P := fun x => x.Each P ∧ State.merge D u x = u) (fun a b ha hb => ?_)
    (fun s hs => ⟨hl s hs, absorbed s hs⟩) ht).2
  refine ⟨Each.merge law missing ha.1 hb.1, ?_⟩
  rw [← merge_assoc law missing idem hu ha.1 hb.1, ha.2, hb.2]

/-- What some states are merged to depends on which they are, not on their order or on how often they occur. -/
theorem mergeAll_congr (hl : ∀ s ∈ l, s.Each P) (same : ∀ s, s ∈ l ↔ s ∈ k) : mergeAll D l = mergeAll D k := by
  have hk : ∀ s ∈ k, s.Each P := fun s hs => hl s ((same s).2 hs)
  have good {m : List (State V)} {t : State V} (hm : ∀ s ∈ m, s.Each P) (ht : mergeAll D m = some t) : t.Each P :=
    mergeAll_induction (fun _ _ => Each.merge law missing) hm ht
  by_cases hne : l = []
  · obtain rfl : k = [] := List.eq_nil_iff_forall_not_mem.2 fun s hs => by
      have := (same s).2 hs
      rw [hne] at this
      cases this
    rw [hne]
  · obtain ⟨x, hx⟩ := List.exists_mem_of_ne_nil l hne
    obtain ⟨t, ht⟩ := mergeAll_isSome (D := D) hne
    obtain ⟨u, hu⟩ := mergeAll_isSome (D := D) (List.ne_nil_of_mem ((same x).1 hx))
    -- each of the two results has absorbed the states that the other one is made of
    have left : State.merge D t u = t := merge_mergeAll law missing idem (good hl ht) hk
      (fun s hs => mergeAll_merge law missing idem hl ht ((same s).2 hs)) hu
    have right : State.merge D u t = u := merge_mergeAll law missing idem (good hk hu) hl
      (fun s hs => mergeAll_merge law missing idem hk hu ((same s).1 hs)) ht
    rw [ht, hu, ← left, merge_comm law missing (good hl ht) (good hk hu), right]

theorem mergesInAnyOrder : MergesInAnyOrder P D where
  comm := fun _ _ => merge_comm law missing
  assoc := fun _ _ _ => merge_assoc law missing idem
  idem := fun a _ => State.merge_self idem a
  all := fun l k hne hl same => by
    obtain ⟨t, ht⟩ := mergeAll_isSome (D := D) hne
    exact ⟨t, ht, (mergeAll_congr law missing idem hl same).symm.trans ht⟩
  inflow := fun g initial p b l hentry good same => by
    rw [Progress.inflow_of_not_isEntry hentry]
    refine mergeAll_congr law missing idem (fun s hs => ?_) fun s => ?_
    · obtain ⟨i, -, hi⟩ := List.mem_filterMap.1 hs
      exact good i s hi
    · simp only [List.mem_filterMap, same]

end Laws

/-- **Merging in any order.** In each of the four domains states whose values satisfy the invariants of their
constructors are merged alike in any order and however often each of them occurs, and so the state that flows into a
block does not depend on the order of its predecessors. -/
theorem merge_inAnyOrder :
    MergesInAnyOrder PointsTo.Valid Domain.pointsTo ∧ MergesInAnyOrder CopyClass.Valid Domain.copies ∧
      MergesInAnyOrder Content.IsSmall Domain.contents ∧ MergesInAnyOrder (fun _ => True) Domain.taint :=
  ⟨mergesInAnyOrder PointsTo.isSemilattice PointsTo.missingPointsTo_valid PointsTo.merge_self,
    mergesInAnyOrder CopyClass.isSemilattice (fun e => CopyClass.Obtained.valid (.singleton e)) CopyClass.merge_self,
    mergesInAnyOrder Content.isSemilattice missingContent_isSmall Content.merge_self,
    mergesInAnyOrder taint_isSemilattice (fun _ => trivial) Taint.merge_self⟩

end State

end Dataflow
