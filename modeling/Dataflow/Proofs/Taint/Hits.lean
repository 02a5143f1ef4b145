import Dataflow.Taint.Hits

/-!
# What is in a log of hits

A log keeps hits by call site, and the hits of a site by what they are known by. Asked for its hits it
gives each one once, whatever the sites that found it.

## What is proved

What is found in a log after each of its operations (`has_record`, `has_withdraw`, `has_absorb`), and
that its hits are those that are found at some site (`exists_mem_hits_iff`). The last needs that hits are
kept under their own keys, which every operation sees to (`HitLog.Keyed`).
-/

namespace Dataflow

variable {hit : SinkHit} {k : HitKey}

/-! ### Sets of hits -/

namespace HitSet

/-- Every hit is kept under its key. -/
def Keyed (s : HitSet) : Prop := ∀ k h, s.find? k = some h → h.key = k

/-- There is a hit that is known so. -/
def Has (s : HitSet) (k : HitKey) : Prop := (s.find? k).isSome = true

variable {s : HitSet}

theorem keyed_empty : Keyed FinMap.empty := fun k h hk => by simp at hk

theorem not_has_empty : ¬Has FinMap.empty k := by simp [Has]

/-- Adding a hit puts some hit of its key under its key. -/
theorem exists_add_eq (h : s.Keyed) (hit : SinkHit) : ∃ new, new.key = hit.key ∧ s.add hit = s.insert hit.key new := by
  unfold add
  split
  · rename_i old hold
    exact ⟨{ old with sources := old.sources.union hit.sources }, show old.key = hit.key from h _ _ hold, rfl⟩
  · exact ⟨hit, rfl, rfl⟩

theorem Keyed.add (h : s.Keyed) (hit : SinkHit) : (s.add hit).Keyed := by
  obtain ⟨new, hnew, hadd⟩ := exists_add_eq h hit
  rw [hadd]
  intro k' h' hk'
  by_cases hk : k' = hit.key
  · subst hk
    rw [FinMap.find?_insert_self, Option.some.injEq] at hk'
    exact hk' ▸ hnew
  · rw [FinMap.find?_insert_ne _ _ hk] at hk'
    exact h k' h' hk'

theorem has_add (h : s.Keyed) : (s.add hit).Has k ↔ k = hit.key ∨ s.Has k := by
  obtain ⟨new, -, hadd⟩ := exists_add_eq h hit
  rw [hadd, Has]
  by_cases hk : k = hit.key
  · simp [hk]
  · simp [FinMap.find?_insert_ne _ _ hk, hk, Has]

theorem Keyed.foldl {l : List SinkHit} (h : s.Keyed) : (l.foldl HitSet.add s).Keyed := by
  induction l generalizing s with
  | nil => exact h
  | cons hit l ih => exact ih (h.add hit)

theorem has_foldl {l : List SinkHit} (h : s.Keyed) : (l.foldl HitSet.add s).Has k ↔ s.Has k ∨ ∃ hit ∈ l, hit.key = k := by
  induction l generalizing s with
  | nil => simp
  | cons hit l ih =>
    rw [List.foldl_cons, ih (h.add hit), has_add h]
    simp only [List.mem_cons, exists_eq_or_imp, eq_comm (a := k), or_left_comm, or_assoc]

/-- The hits of a set by their keys. -/
theorem has_iff (h : s.Keyed) : s.Has k ↔ ∃ hit ∈ s.values, hit.key = k := by
  rw [Has, Option.isSome_iff_exists]
  constructor
  · rintro ⟨hit, hfind⟩
    exact ⟨hit, List.mem_map.2 ⟨(k, hit), FinMap.mem_entries.2 hfind, rfl⟩, h k hit hfind⟩
  · rintro ⟨hit, hmem, rfl⟩
    obtain ⟨⟨k', hit⟩, hentry, rfl⟩ := List.mem_map.1 hmem
    have hfind := FinMap.mem_entries.1 hentry
    obtain rfl := h k' hit hfind
    exact ⟨hit, hfind⟩

end HitSet

/-! ### Logs -/

namespace HitLog

/-- Every hit is kept under its key. -/
def Keyed (log : HitLog) : Prop := ∀ site s, log.sites.find? site = some s → s.Keyed

/-- At a call site there is a hit that is known so. -/
def Has (log : HitLog) (site : OperationId) (k : HitKey) : Prop := ((log.sites.find? site).getD FinMap.empty : HitSet).Has k

variable {log other : HitLog} {i j : OperationId}

theorem keyed_empty : empty.Keyed := fun site s hs => by simp [empty] at hs

theorem not_has_empty : ¬empty.Has i k := by simp [Has, empty, HitSet.Has]

theorem Keyed.site (h : log.Keyed) (i : OperationId) : HitSet.Keyed ((log.sites.find? i).getD FinMap.empty) := by
  cases hs : log.sites.find? i with
  | none => exact HitSet.keyed_empty
  | some s => exact h i s hs

theorem Keyed.record (h : log.Keyed) (i : OperationId) (hit : SinkHit) : (log.record i hit).Keyed :=
  fun _ _ hs => FinMap.find?_insert_ind hs ((h.site i).add hit) h

theorem has_record (h : log.Keyed) : (log.record i hit).Has j k ↔ (j = i ∧ k = hit.key) ∨ log.Has j k := by
  unfold Has HitLog.record
  by_cases hij : j = i
  · subst hij
    rw [FinMap.find?_insert_self, Option.getD_some, HitSet.has_add (h.site j)]
    simp only [true_and]
  · simp only [FinMap.find?_insert_ne _ _ hij, hij, false_and, false_or]

theorem Keyed.withdraw (h : log.Keyed) (i : OperationId) : (log.withdraw i).Keyed := by
  intro j s hs
  by_cases hij : j = i
  · subst hij
    simp [HitLog.withdraw] at hs
  · exact h j s ((FinMap.find?_erase_ne log.sites hij).symm.trans hs)

theorem has_withdraw : (log.withdraw i).Has j k ↔ j ≠ i ∧ log.Has j k := by
  unfold Has HitLog.withdraw
  by_cases hij : j = i
  · subst hij
    simp [HitSet.Has]
  · simp [FinMap.find?_erase_ne log.sites hij, hij]

theorem Keyed.recordAll {l : List SinkHit} (h : log.Keyed) : (l.foldl (fun log hit => log.record i hit) log).Keyed := by
  induction l generalizing log with
  | nil => exact h
  | cons hit l ih => exact ih (h.record i hit)

theorem has_recordAll {l : List SinkHit} (h : log.Keyed) :
    (l.foldl (fun log hit => log.record i hit) log).Has j k ↔
      (j = i ∧ ∃ hit ∈ l, hit.key = k) ∨ log.Has j k := by
  induction l generalizing log with
  | nil => simp
  | cons hit l ih =>
    rw [List.foldl_cons, ih (h.record i hit), has_record h]
    simp only [List.mem_cons, exists_eq_or_imp, eq_comm (a := k), and_or_left, or_left_comm, or_assoc]

theorem Keyed.absorb (h : log.Keyed) (i : OperationId) (other : HitLog) : (log.absorb i other).Keyed := h.recordAll

theorem has_absorb (h : log.Keyed) :
    (log.absorb i other).Has j k ↔ (j = i ∧ ∃ hit ∈ other.hits, hit.key = k) ∨ log.Has j k :=
  has_recordAll h

/-- The hits of a log are those of all its sites. -/
theorem exists_mem_hits_iff (h : log.Keyed) : (∃ hit ∈ log.hits, hit.key = k) ↔ ∃ site, log.Has site k := by
  have keyed : HitSet.Keyed log.merged := HitSet.keyed_empty.foldl
  rw [hits, ← HitSet.has_iff keyed, merged, HitSet.has_foldl HitSet.keyed_empty]
  simp only [HitSet.not_has_empty, false_or, List.mem_flatMap]
  constructor
  · rintro ⟨hit, ⟨s, hs, hmem⟩, hk⟩
    obtain ⟨⟨site, s'⟩, hentry, rfl⟩ := List.mem_map.1 hs
    have hfind := FinMap.mem_entries.1 hentry
    refine ⟨site, ?_⟩
    rw [Has, hfind]
    exact (HitSet.has_iff (h site s' hfind)).2 ⟨hit, hmem, hk⟩
  · rintro ⟨site, hhas⟩
    cases hs : log.sites.find? site with
    | none =>
      rw [Has, hs] at hhas
      exact absurd hhas HitSet.not_has_empty
    | some s =>
      rw [Has, hs] at hhas
      obtain ⟨hit, hmem, hk⟩ := (HitSet.has_iff (h site s hs)).1 hhas
      exact ⟨hit, ⟨s, List.mem_map.2 ⟨(site, s), FinMap.mem_entries.2 hs, rfl⟩, hmem⟩, hk⟩

end HitLog

end Dataflow
