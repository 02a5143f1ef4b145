import Dataflow.Proofs.State.Pointwise
import Dataflow.State.Write

/-!
# Writes to storage of a method

Variables, temporaries and receivers are aliases of nothing but themselves. So a write to
one of them changes only it, and a write to a field or an element changes none of them.
-/

namespace Dataflow

namespace Entity

/-- Storage of a method is no field and no element. -/
theorem sameKind_of_isMethodLocal {a b : Entity} (h : a.isMethodLocal = true ∨ b.isMethodLocal = true) :
    a.sameKind b = false := by
  cases a <;> cases b <;> simp_all [sameKind, isMethodLocal]

theorem mayAlias_of_isMethodLocal {a b : Entity} (h : a.isMethodLocal = true ∨ b.isMethodLocal = true)
    (hne : a ≠ b) : a.mayAlias b = false := by
  simp [mayAlias, hne, sameKind_of_isMethodLocal h]

theorem hasUnknownOwner_of_isMethodLocal {e : Entity} (h : e.isMethodLocal = true) : e.hasUnknownOwner = false := by
  cases e <;> simp_all [hasUnknownOwner, isMethodLocal]

end Entity

namespace State

variable {V : Type} {e a : Entity} {s : State V}

theorem mem_aliases : a ∈ aliases e s ↔ (s.find? a).isSome ∧ a ≠ e ∧ e.mayAlias a = true := by
  rw [aliases, List.mem_filter, Bool.and_eq_true, decide_eq_true_eq]
  exact and_congr_left fun _ => FinSet.mem_toList.trans FinMap.mem_keys

theorem aliases_of_isMethodLocal (s : State V) (h : e.isMethodLocal = true) : aliases e s = [] := by
  refine List.eq_nil_iff_forall_not_mem.2 fun a ha => ?_
  obtain ⟨-, hne, halias⟩ := mem_aliases.1 ha
  rw [Entity.mayAlias_of_isMethodLocal (.inl h) hne.symm] at halias
  cases halias

/-- A write changes no variable but the one that it is to. -/
theorem not_mem_aliases_of_isMethodLocal (h : a.isMethodLocal = true) : a ∉ aliases e s := by
  intro ha
  obtain ⟨-, hne, halias⟩ := mem_aliases.1 ha
  rw [Entity.mayAlias_of_isMethodLocal (.inr h) hne.symm] at halias
  cases halias

theorem write_of_isMethodLocal (D : Domain V) (v : V) (s : State V) (h : e.isMethodLocal = true) :
    write D e v s = s.insert e v := by
  simp [write, aliases_of_isMethodLocal s h, gainAll, Entity.hasUnknownOwner_of_isMethodLocal h]

theorem valueOr_gain_ne (D : Domain V) (v : V) (s : State V) (h : a ≠ e) :
    valueOr D (gain D v s e) a = valueOr D s a :=
  valueOr_insert_ne D s _ h

theorem valueOr_gainAll_of_not_mem (D : Domain V) (v : V) {l : List Entity} (s : State V) (h : a ∉ l) :
    valueOr D (gainAll D v l s) a = valueOr D s a := by
  unfold gainAll
  induction l generalizing s with
  | nil => rfl
  | cons e l ih =>
    rw [List.mem_cons, not_or] at h
    rw [List.foldl_cons, ih _ h.2, valueOr_gain_ne D v s h.1]

/-- A write to anything else leaves the storage of methods as it is. -/
theorem valueOr_write_of_isMethodLocal (D : Domain V) (v : V) (s : State V) (h : a.isMethodLocal = true)
    (hne : a ≠ e) : valueOr D (write D e v s) a = valueOr D s a := by
  unfold write
  dsimp only
  split
  · rw [valueOr_gain_ne D v _ hne, valueOr_gainAll_of_not_mem D v s (not_mem_aliases_of_isMethodLocal h)]
  · rw [valueOr_insert_ne D _ _ hne, valueOr_gainAll_of_not_mem D v s (not_mem_aliases_of_isMethodLocal h)]

/-! ### Any write -/

theorem nodup_entities (s : State V) : s.entities.Nodup := s.keys.nodup_toList

/-- Each of some different entities gains the value once. -/
theorem find?_gainAll_of_nodup (D : Domain V) (v : V) {l : List Entity} (nodup : l.Nodup) (s : State V) (a : Entity) :
    (gainAll D v l s).find? a = if a ∈ l then some (D.merge (valueOr D s a) v) else s.find? a := by
  unfold gainAll
  induction l generalizing s with
  | nil => rfl
  | cons e l ih =>
    obtain ⟨hnot, nodup⟩ := List.nodup_cons.1 nodup
    rw [List.foldl_cons, ih nodup]
    by_cases hae : a = e
    · subst hae
      rw [if_neg hnot, if_pos List.mem_cons_self]
      exact FinMap.find?_insert_self _ _ _
    · rw [valueOr_gain_ne D v s hae, gain, FinMap.find?_insert_ne _ _ hae]
      simp [hae]

/-- What an entity holds after a write: the one that is written to holds the value, and if it stands for many cells
what it held besides; what is mentioned and may be the same storage gains the value. -/
theorem find?_write (D : Domain V) (e : Entity) (v : V) (s : State V) (a : Entity) :
    (write D e v s).find? a =
      if a = e then some (if e.hasUnknownOwner then D.merge (valueOr D s e) v else v)
      else if e.mayAlias a = true then (s.find? a).map (D.merge · v) else s.find? a := by
  have nodup : (aliases e s).Nodup := (nodup_entities s).filter _
  have alone : valueOr D (gainAll D v (aliases e s) s) e = valueOr D s e :=
    valueOr_gainAll_of_not_mem D v s fun h => (mem_aliases.1 h).2.1 rfl
  have written : write D e v s = (gainAll D v (aliases e s) s).insert e
      (if e.hasUnknownOwner then D.merge (valueOr D s e) v else v) := by
    unfold write
    dsimp only
    split
    · rw [gain, alone]
    · rfl
  rw [written]
  by_cases hae : a = e
  · rw [hae, FinMap.find?_insert_self, if_pos rfl]
  · rw [FinMap.find?_insert_ne _ _ hae, find?_gainAll_of_nodup D v nodup, if_neg hae]
    cases hs : s.find? a with
    | none => simp [mem_aliases, hs]
    | some u => simp [mem_aliases, hs, hae, valueOr_of_find? D hs]

/-- After a write an entity holds what it held, or the value, or either of them. -/
theorem valueOr_write (D : Domain V) (e : Entity) (v : V) (s : State V) (a : Entity) :
    valueOr D (write D e v s) a = valueOr D s a ∨ valueOr D (write D e v s) a = D.merge (valueOr D s a) v ∨
      valueOr D (write D e v s) a = v := by
  have held := find?_write D e v s a
  split at held
  · rename_i hae
    rw [valueOr_of_find? D held, hae]
    split
    · exact .inr (.inl rfl)
    · exact .inr (.inr rfl)
  · split at held
    · cases hs : s.find? a with
      | none => exact .inl (by rw [hs] at held; rw [valueOr_of_not_mentioned D held, valueOr_of_not_mentioned D hs])
      | some u => exact .inr (.inl (by rw [hs] at held; rw [valueOr_of_find? D held, valueOr_of_find? D hs]))
    · exact .inl (by rw [valueOr, held, valueOr])

/-- A write mentions nothing new but what it is to. -/
theorem isSome_find?_write (D : Domain V) (e : Entity) (v : V) (s : State V) (a : Entity) :
    ((write D e v s).find? a).isSome ↔ (s.find? a).isSome ∨ a = e := by
  rw [find?_write]
  by_cases hae : a = e
  · simp [hae]
  · by_cases halias : e.mayAlias a = true <;> simp [hae, halias]

end State

end Dataflow
