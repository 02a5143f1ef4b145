import Dataflow.Analysis.Solver

/-!
# Merging and widening entity by entity

States are finite maps with defaults. Here their merge and their widening are described
by look-ups, so that what holds of the values of a domain can be carried over to states.

## What is proved

The merge of two states has the merge of their values (`valueOr_merge`), and likewise for
widening (`valueOr_widen`), if merging a value with itself changes nothing. A state that
absorbs another one is one that mentions all its entities and absorbs their values
(`merge_eq_left_iff`). A property that merging keeps carries over to the merge of a list
(`mergeAll_induction`).
-/

namespace Dataflow

namespace State

variable {V : Type} {D : Domain V}

/-! ### Look-ups -/

@[simp]
theorem valueOr_empty (D : Domain V) (e : Entity) : valueOr D (empty : State V) e = D.missing e := by
  simp [valueOr, empty]

@[simp]
theorem valueOr_insert_self (D : Domain V) (s : State V) (e : Entity) (v : V) :
    valueOr D (s.insert e v) e = v := by
  simp [valueOr]

theorem valueOr_insert_ne (D : Domain V) (s : State V) {e e' : Entity} (v : V) (h : e ≠ e') :
    valueOr D (s.insert e' v) e = valueOr D s e := by
  rw [valueOr, valueOr, FinMap.find?_insert_ne s v h]

@[simp]
theorem valueOr_erase_self (D : Domain V) (s : State V) (e : Entity) :
    valueOr D (s.erase e) e = D.missing e := by
  simp [valueOr]

theorem valueOr_erase_ne (D : Domain V) (s : State V) {e e' : Entity} (h : e ≠ e') :
    valueOr D (s.erase e') e = valueOr D s e := by
  rw [valueOr, valueOr, FinMap.find?_erase_ne s h]

theorem valueOr_of_find? (D : Domain V) {s : State V} {e : Entity} {v : V} (h : s.find? e = some v) :
    valueOr D s e = v := by
  simp [valueOr, h]

theorem valueOr_of_not_mentioned (D : Domain V) {s : State V} {e : Entity} (h : s.find? e = none) :
    valueOr D s e = D.missing e := by
  simp [valueOr, h]

/-! ### Merging -/

theorem find?_merge (D : Domain V) (a b : State V) (e : Entity) :
    (merge D a b).find? e =
      if (a.find? e).isSome ∨ (b.find? e).isSome then some (D.merge (valueOr D a e) (valueOr D b e)) else none := by
  simp [merge]

/-- The merge of two states has the merge of their values. -/
theorem valueOr_merge (idem : ∀ v, D.merge v v = v) (a b : State V) (e : Entity) :
    valueOr D (merge D a b) e = D.merge (valueOr D a e) (valueOr D b e) := by
  have lookup := find?_merge D a b e
  split at lookup
  · exact valueOr_of_find? D lookup
  · rename_i h
    rw [not_or] at h
    rw [valueOr_of_not_mentioned D lookup, valueOr_of_not_mentioned D (by simpa using h.1),
      valueOr_of_not_mentioned D (by simpa using h.2), idem]

/-- What both states say of an entity, their merge does. -/
theorem find?_merge_of_same (idem : ∀ v, D.merge v v = v) {a b : State V} {e : Entity} {w : Option V} (ha : a.find? e = w)
    (hb : b.find? e = w) : (merge D a b).find? e = w := by
  rw [find?_merge]
  cases w with
  | none => simp [ha, hb]
  | some v => rw [if_pos (.inl (by simp [ha])), valueOr_of_find? D ha, valueOr_of_find? D hb, idem]

/-- A state absorbs another one if it mentions all its entities and absorbs their values. -/
theorem merge_eq_left_iff {s t : State V} :
    merge D s t = s ↔ (∀ e, (t.find? e).isSome → (s.find? e).isSome) ∧
      ∀ e v, s.find? e = some v → D.merge v (valueOr D t e) = v := by
  constructor
  · intro h
    have lookup : ∀ e, s.find? e =
        if (s.find? e).isSome ∨ (t.find? e).isSome then some (D.merge (valueOr D s e) (valueOr D t e))
        else none := by
      intro e
      rw [← find?_merge, h]
    constructor
    · intro e ht
      rw [lookup e, if_pos (Or.inr ht)]
      rfl
    · intro e v hv
      have he := lookup e
      rw [if_pos (Or.inl (by simp [hv])), valueOr_of_find? D hv, hv, Option.some.injEq] at he
      exact he.symm
  · rintro ⟨mentions, absorbs⟩
    refine FinMap.ext fun e => ?_
    rw [find?_merge]
    cases hs : s.find? e with
    | some v => simp [valueOr_of_find? D hs, absorbs e v hs]
    | none =>
      have ht : ¬ (t.find? e).isSome := fun ht => by simpa [hs] using mentions e ht
      simp [ht]

theorem merge_self (idem : ∀ v, D.merge v v = v) (s : State V) : merge D s s = s := by
  rw [merge_eq_left_iff]
  refine ⟨fun e h => h, fun e v hv => ?_⟩
  rw [valueOr_of_find? D hv, idem]

/-! ### Widening -/

/-- What widening makes of the value that an entity had and the one that it gets. -/
def widenValue [DecidableEq V] (D : Domain V) (old new : V) : V :=
  let merged := D.merge old new
  if old = merged then merged else D.widen old merged

theorem find?_widen [DecidableEq V] (D : Domain V) (previous next : State V) (e : Entity) :
    (widen D previous next).find? e =
      if (previous.find? e).isSome ∨ (next.find? e).isSome then
        some (widenValue D (valueOr D previous e) (valueOr D next e)) else none := by
  simp [widen, widenValue]

/-- Widening works on the values that the states have. -/
theorem valueOr_widen [DecidableEq V] (idem : ∀ v, D.merge v v = v) (previous next : State V) (e : Entity) :
    valueOr D (widen D previous next) e = widenValue D (valueOr D previous e) (valueOr D next e) := by
  have lookup := find?_widen D previous next e
  split at lookup
  · exact valueOr_of_find? D lookup
  · rename_i h
    rw [not_or] at h
    rw [valueOr_of_not_mentioned D lookup, valueOr_of_not_mentioned D (by simpa using h.1),
      valueOr_of_not_mentioned D (by simpa using h.2), widenValue]
    simp [idem]

/-- What does not change is not widened. -/
theorem find?_widen_of_same [DecidableEq V] (idem : ∀ v, D.merge v v = v) {previous next : State V} {e : Entity} {v : V}
    (hprevious : previous.find? e = some v) (hnext : next.find? e = some v) :
    (widen D previous next).find? e = some v := by
  rw [find?_widen, if_pos (.inl (by simp [hprevious])), valueOr_of_find? D hprevious, valueOr_of_find? D hnext, widenValue]
  simp [idem]

/-- A widened state absorbs what it was widened by if widened values do. -/
theorem merge_widen_iff [DecidableEq V] {previous next : State V} :
    merge D (widen D previous next) next = widen D previous next ↔
      ∀ e, (previous.find? e).isSome ∨ (next.find? e).isSome →
        D.merge (widenValue D (valueOr D previous e) (valueOr D next e)) (valueOr D next e) =
          widenValue D (valueOr D previous e) (valueOr D next e) := by
  rw [merge_eq_left_iff]
  constructor
  · rintro ⟨-, absorbs⟩ e he
    exact absorbs e _ (by rw [find?_widen, if_pos he])
  · intro h
    constructor
    · intro e he
      rw [find?_widen, if_pos (Or.inr he)]
      rfl
    · intro e v hv
      rw [find?_widen] at hv
      split at hv
      · rename_i he
        rw [← Option.some.inj hv]
        exact h e he
      · cases hv

/-! ### Merging lists -/

/-- What holds of some states and is kept by merging holds of their merge. -/
theorem mergeAll_induction {P : State V → Prop} (hmerge : ∀ a b, P a → P b → P (merge D a b))
    {l : List (State V)} (h : ∀ s ∈ l, P s) {t : State V} (ht : mergeAll D l = some t) : P t := by
  cases l with
  | nil => cases ht
  | cons s l =>
    obtain rfl := Option.some.inj ht
    have hs : P s := h s List.mem_cons_self
    replace h : ∀ s ∈ l, P s := fun r hr => h r (List.mem_cons_of_mem _ hr)
    clear ht
    induction l generalizing s with
    | nil => exact hs
    | cons r l ih =>
      exact ih (merge D s r) (hmerge s r hs (h r List.mem_cons_self))
        (fun q hq => h q (List.mem_cons_of_mem _ hq))

/-- What holds of one of some states, and of any merge as soon as it holds of one side, holds
of their merge. The states may be restricted to those with a property `G` that merging keeps. -/
theorem mergeAll_of_mem {G P : State V → Prop} (hG : ∀ a b, G a → G b → G (merge D a b))
    (left : ∀ a b, G a → G b → P a → P (merge D a b)) (right : ∀ a b, G a → G b → P b → P (merge D a b))
    {l : List (State V)} (h : ∀ s ∈ l, G s) {r : State V} (hr : r ∈ l) (hP : P r) {t : State V}
    (ht : mergeAll D l = some t) : P t := by
  cases l with
  | nil => cases ht
  | cons s l =>
    obtain rfl := Option.some.inj ht
    have hs : G s := h s List.mem_cons_self
    replace h : ∀ s ∈ l, G s := fun r hr => h r (List.mem_cons_of_mem _ hr)
    replace hr : P s ∨ r ∈ l := (List.mem_cons.1 hr).imp (fun (e : r = s) => e ▸ hP) id
    clear ht
    induction l generalizing s with
    | nil =>
      rcases hr with hs' | hr
      · exact hs'
      · cases hr
    | cons q l ih =>
      have hq := h q List.mem_cons_self
      refine ih (merge D s q) (hG s q hs hq) (fun q hq => h q (List.mem_cons_of_mem _ hq)) ?_
      rcases hr with hs' | hr
      · exact .inl (left s q hs hq hs')
      · rcases List.mem_cons.1 hr with rfl | hr
        · exact .inl (right s r hs hq hP)
        · exact .inr hr

theorem mergeAll_isSome {l : List (State V)} (h : l ≠ []) : ∃ t, mergeAll D l = some t := by
  cases l with
  | nil => exact absurd rfl h
  | cons s l => exact ⟨_, rfl⟩

end State

end Dataflow
