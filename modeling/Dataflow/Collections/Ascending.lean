/-!
# Ascending lists

Finite sets and finite maps are kept as lists whose keys strictly ascend. The
representation is canonical: two ascending lists with the same elements are the
same list (`Ascending.ext`), so equality of sets and of maps is equality of
values, and never a question of how they were built.

The list operations here take the key as a function of the element. A set uses
the identity, a map the first component.
-/

namespace Dataflow

variable {α γ : Type} [Ord α]

/-- The keys of the list strictly ascend. -/
def Ascending (key : γ → α) (l : List γ) : Prop :=
  l.Pairwise fun x y => compare (key x) (key y) = .lt

namespace Ascending

/-- Puts an element at its place and replaces an element of the same key. -/
def insert (key : γ → α) (x : γ) : List γ → List γ
  | [] => [x]
  | y :: ys =>
    match compare (key x) (key y) with
    | .lt => x :: y :: ys
    | .eq => x :: ys
    | .gt => y :: insert key x ys

/-- The elements of two lists; of equal keys the second list's element stays. -/
def union (key : γ → α) (l l' : List γ) : List γ :=
  l'.foldl (fun acc x => insert key x acc) l

/-- The elements of any list, each at its place; of equal keys the last one stays. -/
def ofList (key : γ → α) (l : List γ) : List γ := union key [] l

/-- Drops the element of the given key. -/
def erase (key : γ → α) (k : α) (l : List γ) : List γ :=
  l.filter fun x => compare k (key x) != .eq

/-- The element of the given key. -/
def find? (key : γ → α) (k : α) (l : List γ) : Option γ :=
  l.find? fun x => compare k (key x) == .eq

/-! ### The operations keep the order -/

variable {key : γ → α}

theorem nil : Ascending key [] := List.Pairwise.nil

theorem singleton (x : γ) : Ascending key [x] := List.pairwise_singleton _ x

theorem mem_of_mem_insert {x z : γ} {l : List γ} (h : z ∈ insert key x l) : z = x ∨ z ∈ l := by
  induction l with
  | nil => simpa [insert] using h
  | cons y ys ih =>
    unfold insert at h
    split at h
    · simpa using h
    · rcases List.mem_cons.1 h with h | h
      · exact .inl h
      · exact .inr (List.mem_cons_of_mem _ h)
    · rcases List.mem_cons.1 h with h | h
      · exact .inr (h ▸ List.mem_cons_self)
      · rcases ih h with h | h
        · exact .inl h
        · exact .inr (List.mem_cons_of_mem _ h)

theorem insert_ascending [Std.TransOrd α] (x : γ) {l : List γ} (h : Ascending key l) :
    Ascending key (insert key x l) := by
  induction l with
  | nil => exact singleton x
  | cons y ys ih =>
    obtain ⟨hy, hys⟩ := List.pairwise_cons.1 h
    unfold insert
    split
    · next hc =>
      refine List.pairwise_cons.2 ⟨fun z hz => ?_, h⟩
      rcases List.mem_cons.1 hz with rfl | hz
      · exact hc
      · exact Std.TransCmp.lt_trans hc (hy z hz)
    · next hc =>
      refine List.pairwise_cons.2 ⟨fun z hz => ?_, hys⟩
      exact Std.TransCmp.lt_of_eq_of_lt hc (hy z hz)
    · next hc =>
      refine List.pairwise_cons.2 ⟨fun z hz => ?_, ih hys⟩
      rcases mem_of_mem_insert hz with rfl | hz
      · exact Std.OrientedCmp.lt_of_gt hc
      · exact hy z hz

theorem union_ascending [Std.TransOrd α] {l : List γ} (h : Ascending key l) (l' : List γ) :
    Ascending key (union key l l') := by
  induction l' generalizing l with
  | nil => exact h
  | cons x xs ih => exact ih (insert_ascending x h)

theorem ofList_ascending [Std.TransOrd α] (key : γ → α) (l : List γ) :
    Ascending key (ofList key l) :=
  union_ascending nil l

theorem filter_ascending (p : γ → Bool) {l : List γ} (h : Ascending key l) :
    Ascending key (l.filter p) :=
  List.Pairwise.filter p h

theorem erase_ascending (k : α) {l : List γ} (h : Ascending key l) :
    Ascending key (erase key k l) :=
  filter_ascending _ h

/-! ### Look-up -/

theorem find?_insert [Std.TransOrd α] (x : γ) (k : α) (l : List γ) :
    find? key k (insert key x l) =
      if compare k (key x) = .eq then some x else find? key k l := by
  induction l with
  | nil => by_cases h : compare k (key x) = .eq <;> simp [insert, find?, h]
  | cons y ys ih =>
    by_cases hk : compare k (key x) = .eq
    · simp only [hk, if_true] at ih ⊢
      unfold insert
      split
      · simp [find?, hk]
      · simp [find?, hk]
      · next hc =>
        have hy : compare k (key y) ≠ .eq := by
          rw [Std.TransCmp.congr_left hk, hc]
          decide
        simpa [find?, hy] using ih
    · simp only [hk, if_false] at ih ⊢
      unfold insert
      split
      · simp [find?, hk]
      · next hc =>
        have hy : compare k (key y) ≠ .eq := by
          rw [← Std.TransCmp.congr_right hc]
          exact hk
        simp [find?, hk, hy]
      · by_cases hy : compare k (key y) = .eq
        · simp [find?, hy]
        · simpa [find?, hy] using ih

theorem find?_filter_key (key : γ → α) (p : α → Bool) (k : α) [Std.LawfulEqOrd α] (l : List γ) :
    find? key k (l.filter fun x => p (key x)) = if p k then find? key k l else none := by
  induction l with
  | nil => simp [find?]
  | cons y ys ih =>
    by_cases hy : compare k (key y) = .eq
    · obtain rfl := Std.LawfulEqCmp.eq_of_compare hy
      by_cases hp : p (key y)
      · simp [find?, hp]
      · simp only [hp, Bool.false_eq_true, not_false_eq_true, List.filter_cons_of_neg] at ih ⊢
        simpa using ih
    · by_cases hp : p (key y)
      · have hb : (compare k (key y) == .eq) = false := by simpa using hy
        simp only [find?, hp, List.filter_cons_of_pos, List.find?_cons, hb]
        exact ih
      · have : find? key k (y :: ys) = find? key k ys := by simp [find?, hy]
        rw [this, ← ih]
        simp [hp]

theorem find?_erase [Std.TransOrd α] [Std.LawfulEqOrd α] (k k' : α) (l : List γ) :
    find? key k (erase key k' l) = if compare k k' = .eq then none else find? key k l := by
  have h := find?_filter_key key (fun j => compare k' j != .eq) k l
  simp only [erase]
  rw [h]
  by_cases hc : compare k k' = .eq
  · have : compare k' k = .eq := Std.OrientedCmp.eq_symm hc
    simp [hc, this]
  · have : compare k' k ≠ .eq := fun e => hc (Std.OrientedCmp.eq_symm e)
    simp [hc, this]

theorem find?_some_mem {k : α} {x : γ} {l : List γ} (h : find? key k l = some x) :
    x ∈ l ∧ compare k (key x) = .eq := by
  refine ⟨List.mem_of_find?_eq_some h, ?_⟩
  simpa using List.find?_some h

theorem find?_of_mem [Std.TransOrd α] {x : γ} {l : List γ} (h : Ascending key l) (hx : x ∈ l) :
    find? key (key x) l = some x := by
  induction l with
  | nil => cases hx
  | cons y ys ih =>
    obtain ⟨hy, hys⟩ := List.pairwise_cons.1 h
    rcases List.mem_cons.1 hx with rfl | hx
    · simp [find?, Std.ReflCmp.compare_self]
    · have : compare (key x) (key y) ≠ .eq := by
        rw [Std.OrientedCmp.gt_of_lt (hy x hx)]
        decide
      simpa [find?, this] using ih hys hx

/-- An ascending list is determined by its look-ups. -/
theorem ext [Std.TransOrd α] {l l' : List γ} (h : Ascending key l) (h' : Ascending key l')
    (e : ∀ k, find? key k l = find? key k l') : l = l' := by
  induction l generalizing l' with
  | nil =>
    cases l' with
    | nil => rfl
    | cons y ys =>
      have := e (key y)
      rw [find?_of_mem h' List.mem_cons_self] at this
      simp [find?] at this
  | cons x xs ih =>
    cases l' with
    | nil =>
      have := e (key x)
      rw [find?_of_mem h List.mem_cons_self] at this
      simp [find?] at this
    | cons y ys =>
      obtain ⟨hx, hxs⟩ := List.pairwise_cons.1 h
      obtain ⟨hy, hys⟩ := List.pairwise_cons.1 h'
      have hxy : x = y := by
        have e1 := e (key x)
        rw [find?_of_mem h List.mem_cons_self] at e1
        obtain ⟨m1, _⟩ := find?_some_mem e1.symm
        rcases List.mem_cons.1 m1 with m1 | m1
        · exact m1
        · have e2 := e (key y)
          rw [find?_of_mem h' List.mem_cons_self] at e2
          obtain ⟨m2, _⟩ := find?_some_mem e2
          rcases List.mem_cons.1 m2 with m2 | m2
          · exact m2.symm
          · have := Std.TransCmp.lt_trans (hy x m1) (hx y m2)
            simp at this
      subst hxy
      congr 1
      refine ih hxs hys fun k => ?_
      by_cases hk : compare k (key x) = .eq
      · have none_of : ∀ {zs : List γ}, (∀ z ∈ zs, compare (key x) (key z) = .lt) →
            find? key k zs = none := by
          intro zs hz
          refine List.find?_eq_none.2 fun z hzm => ?_
          rw [Std.TransCmp.congr_left hk, hz z hzm]
          decide
        rw [none_of hx, none_of hy]
      · have := e k
        simpa [find?, hk] using this

end Ascending

end Dataflow
