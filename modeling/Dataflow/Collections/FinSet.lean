import Dataflow.Collections.Ascending

/-!
# Finite sets

A finite set is the ascending list of its elements. Sets with the same members
are equal (`FinSet.ext`), and every operation is described by its members.
-/

namespace Dataflow

/-- A finite set of elements of an ordered type. -/
structure FinSet (α : Type) [Ord α] where
  /-- The elements in ascending order. -/
  toList : List α
  /-- The elements strictly ascend. -/
  ascending : Ascending id toList

namespace FinSet

variable {α : Type} [Ord α]

instance [DecidableEq α] : DecidableEq (FinSet α) := fun a b =>
  decidable_of_iff (a.toList = b.toList) <| by
    constructor
    · intro h
      cases a
      cases b
      cases h
      rfl
    · exact congrArg _

/-- The set without elements. -/
def empty : FinSet α := ⟨[], Ascending.nil⟩

/-- The set of one element. -/
def singleton (x : α) : FinSet α := ⟨[x], Ascending.singleton x⟩

/-- Whether the element is a member. -/
def contains (s : FinSet α) (x : α) : Bool := (Ascending.find? id x s.toList).isSome

instance : Membership α (FinSet α) := ⟨fun s x => s.contains x = true⟩

instance (x : α) (s : FinSet α) : Decidable (x ∈ s) := inferInstanceAs (Decidable (_ = true))

/-- Whether the set has no element. -/
def isEmpty (s : FinSet α) : Bool := s.toList.isEmpty

/-- The number of elements. -/
def size (s : FinSet α) : Nat := s.toList.length

/-- The members that pass the test. -/
def filter (p : α → Bool) (s : FinSet α) : FinSet α :=
  ⟨s.toList.filter p, Ascending.filter_ascending p s.ascending⟩

/-- The set without the element. -/
def erase (x : α) (s : FinSet α) : FinSet α :=
  ⟨Ascending.erase id x s.toList, Ascending.erase_ascending x s.ascending⟩

/-- The common members of two sets. -/
def inter (s t : FinSet α) : FinSet α := s.filter t.contains

theorem mem_iff_contains {s : FinSet α} {x : α} : x ∈ s ↔ s.contains x = true := Iff.rfl

theorem mem_iff_find? {s : FinSet α} {x : α} :
    x ∈ s ↔ (Ascending.find? id x s.toList).isSome = true := Iff.rfl

@[simp]
theorem isEmpty_iff {s : FinSet α} : s.isEmpty = true ↔ s = empty := by
  cases s with
  | mk l hl =>
    cases l with
    | nil => simp [isEmpty, empty]
    | cons x xs => simp [isEmpty, empty]

@[simp]
theorem not_mem_empty (x : α) : ¬ x ∈ (empty : FinSet α) := by
  simp [mem_iff_find?, empty, Ascending.find?]

variable [Std.TransOrd α]

/-- The set with the element added. -/
def insert (x : α) (s : FinSet α) : FinSet α :=
  ⟨Ascending.insert id x s.toList, Ascending.insert_ascending x s.ascending⟩

/-- The set of the elements of a list. -/
def ofList (l : List α) : FinSet α := ⟨Ascending.ofList id l, Ascending.ofList_ascending id l⟩

/-- The members of either set. -/
def union (s t : FinSet α) : FinSet α :=
  ⟨Ascending.union id s.toList t.toList, Ascending.union_ascending s.ascending t.toList⟩

/-! ### Members -/

variable [Std.LawfulEqOrd α]

@[simp]
theorem mem_toList {s : FinSet α} {x : α} : x ∈ s.toList ↔ x ∈ s := by
  rw [mem_iff_find?]
  constructor
  · intro h
    have := Ascending.find?_of_mem s.ascending h
    simp only [id_eq] at this
    simp [this]
  · intro h
    obtain ⟨y, hy⟩ := Option.isSome_iff_exists.1 h
    obtain ⟨hm, hc⟩ := Ascending.find?_some_mem hy
    obtain rfl := Std.LawfulEqCmp.eq_of_compare hc
    exact hm

omit [Std.TransOrd α] in
/-- No member is listed twice. -/
theorem nodup_toList (s : FinSet α) : s.toList.Nodup :=
  s.ascending.imp fun h => by
    rintro rfl
    simp [Std.ReflCmp.compare_self] at h

@[simp]
theorem mem_singleton {x y : α} : x ∈ singleton y ↔ x = y := by
  rw [← mem_toList]
  simp [singleton]

@[simp]
theorem mem_insert {x y : α} {s : FinSet α} : x ∈ s.insert y ↔ x = y ∨ x ∈ s := by
  simp only [mem_iff_find?, insert, Ascending.find?_insert, id_eq]
  by_cases h : compare x y = .eq
  · simp [Std.LawfulEqCmp.eq_of_compare h]
  · have : x ≠ y := fun e => h (by simp [e])
    simp [h, this]

@[simp]
theorem mem_filter {x : α} {p : α → Bool} {s : FinSet α} :
    x ∈ s.filter p ↔ x ∈ s ∧ p x = true := by
  rw [← mem_toList, ← mem_toList]
  simp [filter]

@[simp]
theorem mem_inter {x : α} {s t : FinSet α} : x ∈ s.inter t ↔ x ∈ s ∧ x ∈ t := by
  rw [inter, mem_filter]
  exact Iff.rfl

@[simp]
theorem mem_erase {x y : α} {s : FinSet α} : x ∈ s.erase y ↔ x ≠ y ∧ x ∈ s := by
  rw [← mem_toList, ← mem_toList]
  simp only [erase, Ascending.erase, List.mem_filter, bne_iff_ne, ne_eq]
  constructor
  · rintro ⟨h, hc⟩
    exact ⟨fun e => hc (by simp [e]), h⟩
  · rintro ⟨hne, h⟩
    exact ⟨h, fun e => hne (Std.LawfulEqCmp.eq_of_compare e).symm⟩

omit [Std.TransOrd α] in
/-- Insertion adds its element and loses none. -/
theorem mem_insertList {x y : α} {l : List α} :
    x ∈ Ascending.insert id y l ↔ x = y ∨ x ∈ l := by
  induction l with
  | nil => simp [Ascending.insert]
  | cons z zs ih =>
    unfold Ascending.insert
    split
    · simp
    · next hc =>
      obtain rfl := Std.LawfulEqCmp.eq_of_compare hc
      simp
    · simp [ih, or_left_comm]

omit [Std.TransOrd α] in
theorem mem_unionList {x : α} {l l' : List α} :
    x ∈ Ascending.union id l l' ↔ x ∈ l ∨ x ∈ l' := by
  induction l' generalizing l with
  | nil => simp [Ascending.union]
  | cons y ys ih =>
    have := @ih (Ascending.insert id y l)
    simp only [Ascending.union, List.foldl_cons] at this ⊢
    rw [this, mem_insertList]
    simp [or_assoc, or_comm, or_left_comm]

@[simp]
theorem mem_union {x : α} {s t : FinSet α} : x ∈ s.union t ↔ x ∈ s ∨ x ∈ t := by
  rw [← mem_toList, ← mem_toList, ← mem_toList]
  exact mem_unionList

@[simp]
theorem mem_ofList {x : α} {l : List α} : x ∈ ofList l ↔ x ∈ l := by
  rw [← mem_toList]
  exact (mem_unionList.trans (by simp))

/-- Sets with the same members are equal. -/
@[ext]
theorem ext {s t : FinSet α} (h : ∀ x, x ∈ s ↔ x ∈ t) : s = t := by
  have key : s.toList = t.toList := by
    refine Ascending.ext s.ascending t.ascending fun x => ?_
    have h := h x
    rw [mem_iff_find?, mem_iff_find?] at h
    cases hs : Ascending.find? id x s.toList with
    | none =>
      cases ht : Ascending.find? id x t.toList with
      | none => rfl
      | some b => simp [hs, ht] at h
    | some a =>
      cases ht : Ascending.find? id x t.toList with
      | none => simp [hs, ht] at h
      | some b =>
        have ha := Std.LawfulEqCmp.eq_of_compare (Ascending.find?_some_mem hs).2
        have hb := Std.LawfulEqCmp.eq_of_compare (Ascending.find?_some_mem ht).2
        simp only [id_eq] at ha hb
        rw [← ha, ← hb]
  cases s
  cases t
  cases key
  rfl

end FinSet

end Dataflow
