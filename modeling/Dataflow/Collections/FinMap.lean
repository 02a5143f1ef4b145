import Dataflow.Collections.FinSet

/-!
# Finite maps

A finite map is the list of its entries with ascending keys. Maps with the same
look-ups are equal (`FinMap.ext`), and every operation is described by its
look-ups.
-/

namespace Dataflow

/-- A finite map with keys of an ordered type. -/
structure FinMap (α β : Type) [Ord α] where
  /-- The entries by ascending key. -/
  entries : List (α × β)
  /-- The keys strictly ascend. -/
  ascending : Ascending Prod.fst entries

namespace FinMap

variable {α β : Type} [Ord α]

instance [DecidableEq α] [DecidableEq β] : DecidableEq (FinMap α β) := fun a b =>
  decidable_of_iff (a.entries = b.entries) <| by
    constructor
    · intro h
      cases a
      cases b
      cases h
      rfl
    · exact congrArg _

/-- The map without entries. -/
def empty : FinMap α β := ⟨[], Ascending.nil⟩

instance : Inhabited (FinMap α β) := ⟨empty⟩

/-- The value at a key. -/
def find? (m : FinMap α β) (k : α) : Option β := (Ascending.find? Prod.fst k m.entries).map Prod.snd

/-- Whether the key has a value. -/
def contains (m : FinMap α β) (k : α) : Bool := (m.find? k).isSome

/-- The number of entries. -/
def size (m : FinMap α β) : Nat := m.entries.length

/-- Whether there is no entry. -/
def isEmpty (m : FinMap α β) : Bool := m.entries.isEmpty

/-- The values by ascending key. -/
def values (m : FinMap α β) : List β := m.entries.map Prod.snd

/-- The keys that have a value. -/
def keys (m : FinMap α β) : FinSet α :=
  ⟨m.entries.map Prod.fst, List.pairwise_map.2 m.ascending⟩

/-- The map without the key. -/
def erase (k : α) (m : FinMap α β) : FinMap α β :=
  ⟨Ascending.erase Prod.fst k m.entries, Ascending.erase_ascending k m.ascending⟩

/-- The entries that pass the test. -/
def filter (p : α → β → Bool) (m : FinMap α β) : FinMap α β :=
  ⟨m.entries.filter fun e => p e.1 e.2, Ascending.filter_ascending _ m.ascending⟩

/-- The map that gives each member of a set its image. -/
def tabulate (s : FinSet α) (f : α → β) : FinMap α β :=
  ⟨s.toList.map fun k => (k, f k), List.pairwise_map.2 s.ascending⟩

@[simp]
theorem find?_empty (k : α) : (empty : FinMap α β).find? k = none := by
  simp [find?, empty, Ascending.find?]

variable [Std.TransOrd α]

/-- The map with the key set to the value. -/
def insert (k : α) (v : β) (m : FinMap α β) : FinMap α β :=
  ⟨Ascending.insert Prod.fst (k, v) m.entries, Ascending.insert_ascending (k, v) m.ascending⟩

/-- The map of the pairs of a list; of equal keys the last one stays. -/
def ofList (l : List (α × β)) : FinMap α β :=
  ⟨Ascending.ofList Prod.fst l, Ascending.ofList_ascending Prod.fst l⟩

theorem ofList_concat (l : List (α × β)) (k : α) (v : β) : ofList (l ++ [(k, v)]) = (ofList l).insert k v := by
  simp [ofList, insert, Ascending.ofList, Ascending.union]

/-! ### Look-ups -/

theorem find?_insert (m : FinMap α β) (k k' : α) (v : β) :
    (m.insert k' v).find? k = if compare k k' = .eq then some v else m.find? k := by
  simp only [find?, insert, Ascending.find?_insert]
  split <;> rfl

variable [Std.LawfulEqOrd α]

@[simp]
theorem find?_insert_self (m : FinMap α β) (k : α) (v : β) : (m.insert k v).find? k = some v := by
  simp [find?_insert]

theorem find?_insert_ne (m : FinMap α β) {k k' : α} (v : β) (h : k ≠ k') :
    (m.insert k' v).find? k = m.find? k := by
  have : compare k k' ≠ .eq := fun e => h (Std.LawfulEqCmp.eq_of_compare e)
  simp [find?_insert, this]

/-- What holds of the new value and of the values so far holds of each value. -/
theorem find?_insert_ind {m : FinMap α β} {k i : α} {v w : β} {P : β → Prop} (h : (m.insert k v).find? i = some w)
    (hv : P v) (hm : ∀ i w, m.find? i = some w → P w) : P w := by
  by_cases hi : i = k
  · subst hi
    rw [find?_insert_self, Option.some.injEq] at h
    exact h ▸ hv
  · exact hm i w ((find?_insert_ne m v hi).symm.trans h)

theorem find?_erase (m : FinMap α β) (k k' : α) :
    (m.erase k').find? k = if compare k k' = .eq then none else m.find? k := by
  simp only [find?, erase, Ascending.find?_erase]
  split <;> rfl

@[simp]
theorem find?_erase_self (m : FinMap α β) (k : α) : (m.erase k).find? k = none := by
  simp [find?_erase]

theorem find?_erase_ne (m : FinMap α β) {k k' : α} (h : k ≠ k') :
    (m.erase k').find? k = m.find? k := by
  have : compare k k' ≠ .eq := fun e => h (Std.LawfulEqCmp.eq_of_compare e)
  simp [find?_erase, this]

theorem mem_entries {m : FinMap α β} {k : α} {v : β} : (k, v) ∈ m.entries ↔ m.find? k = some v := by
  constructor
  · intro h
    have := Ascending.find?_of_mem m.ascending h
    simp only at this
    simp [find?, this]
  · intro h
    obtain ⟨e, he, rfl⟩ := Option.map_eq_some_iff.1 h
    obtain ⟨hm, hc⟩ := Ascending.find?_some_mem he
    obtain rfl := Std.LawfulEqCmp.eq_of_compare hc
    exact hm

@[simp]
theorem mem_keys {m : FinMap α β} {k : α} : k ∈ m.keys ↔ (m.find? k).isSome = true := by
  rw [← FinSet.mem_toList]
  simp only [keys, List.mem_map]
  constructor
  · rintro ⟨⟨k', v⟩, h, rfl⟩
    simp [mem_entries.1 h]
  · intro h
    obtain ⟨v, hv⟩ := Option.isSome_iff_exists.1 h
    exact ⟨(k, v), mem_entries.2 hv, rfl⟩

/-- Maps with the same look-ups are equal. -/
@[ext]
theorem ext {m n : FinMap α β} (h : ∀ k, m.find? k = n.find? k) : m = n := by
  have key : m.entries = n.entries := by
    refine Ascending.ext m.ascending n.ascending fun k => ?_
    have h := h k
    simp only [find?] at h
    cases hm : Ascending.find? Prod.fst k m.entries with
    | none =>
      cases hn : Ascending.find? Prod.fst k n.entries with
      | none => rfl
      | some b => simp [hm, hn] at h
    | some a =>
      cases hn : Ascending.find? Prod.fst k n.entries with
      | none => simp [hm, hn] at h
      | some b =>
        have ha := Std.LawfulEqCmp.eq_of_compare (Ascending.find?_some_mem hm).2
        have hb := Std.LawfulEqCmp.eq_of_compare (Ascending.find?_some_mem hn).2
        rw [hm, hn] at h
        simp only [Option.map_some, Option.some.injEq] at h
        exact congrArg some (Prod.ext (ha.symm.trans hb) h)
  cases m
  cases n
  cases key
  rfl

theorem insert_eq_self {m : FinMap α β} {k : α} {v : β} (h : m.find? k = some v) : m.insert k v = m := by
  refine ext fun i => ?_
  by_cases hi : i = k
  · rw [hi, find?_insert_self, h]
  · rw [find?_insert_ne _ _ hi]

@[simp]
theorem find?_tabulate (s : FinSet α) (f : α → β) (k : α) :
    (tabulate s f).find? k = if k ∈ s then some (f k) else none := by
  by_cases h : k ∈ s
  · rw [if_pos h, ← mem_entries]
    exact List.mem_map.2 ⟨k, FinSet.mem_toList.2 h, rfl⟩
  · rw [if_neg h]
    cases hf : (tabulate s f).find? k with
    | none => rfl
    | some v =>
      obtain ⟨k', hk', e⟩ := List.mem_map.1 (mem_entries.2 hf)
      obtain ⟨rfl, -⟩ := Prod.mk.inj e
      exact absurd (FinSet.mem_toList.1 hk') h

theorem find?_filter (m : FinMap α β) (p : α → β → Bool) (k : α) :
    (m.filter p).find? k = (m.find? k).filter (p k) := by
  have mem (v : β) : (k, v) ∈ (m.filter p).entries ↔ m.find? k = some v ∧ p k v = true := by
    rw [← mem_entries]
    simp [filter]
  cases hf : (m.filter p).find? k with
  | some v =>
    obtain ⟨h, hp⟩ := (mem v).1 (mem_entries.2 hf)
    simp [h, Option.filter, hp]
  | none =>
    cases hm : m.find? k with
    | none => rfl
    | some v =>
      by_cases hp : p k v = true
      · have := mem_entries.1 ((mem v).2 ⟨hm, hp⟩)
        simp [hf] at this
      · simp [Option.filter, hp]

end FinMap

end Dataflow
