import Dataflow.Proofs.State.Pointwise

/-!
# What a widened value absorbs

A loop settles when the state at its head absorbs what flows back. The head's values come
from merging or from widening, so a settled head says something about the values that flow
back only if merged and widened values absorb the values that they were made from.

## What is proved

Merging absorbs its right argument again in the domains of literal content, copies and taint,
and so does widening (`merge_widenValue` in each). In the domain of points-to values widening
has one exception: a value that takes in the address of captured storage is widened to
unknown objects that are not null, and these do not absorb such an address
(`PointsTo.merge_widenValue_iff`).
-/

namespace Dataflow

/-! ### Literal content -/

namespace NonLiteral

theorem merge_absorb (a b : NonLiteral) : (a.merge b).merge b = a.merge b := by
  cases a <;> cases b <;> rfl

theorem absorb_merge (a b : NonLiteral) : a.merge (a.merge b) = a.merge b := by
  cases a <;> cases b <;> rfl

theorem maybe_merge (b : NonLiteral) : maybe.merge b = maybe := by
  cases b <;> rfl

theorem merge_maybe (a : NonLiteral) : a.merge maybe = maybe := by
  cases a <;> rfl

end NonLiteral

namespace Content

@[simp]
theorem merge_self (a : Content) : merge a a = a := by
  simp [merge]

/-- The merge of different contents: anything, or all their literals if they are few. -/
theorem merge_of_ne {a b : Content} (h : a ≠ b) :
    merge a b = any ∨
      a.state.merge b.state ≠ .maybe ∧ (a.literals.union b.literals).size ≤ literalCap ∧
        merge a b = ⟨a.literals.union b.literals, a.state.merge b.state⟩ := by
  unfold merge
  rw [if_neg h]
  split
  · exact .inl rfl
  · rename_i hm
    by_cases hs : (a.literals.union b.literals).size > literalCap
    · exact .inl (if_pos hs)
    · exact .inr ⟨hm, Nat.le_of_not_lt hs, if_neg hs⟩

/-- Any content absorbs every other one. -/
@[simp]
theorem any_merge (b : Content) : merge any b = any := by
  unfold merge
  split
  · rfl
  · rw [show any.state = .maybe from rfl, NonLiteral.maybe_merge]

@[simp]
theorem merge_any (a : Content) : merge a any = any := by
  unfold merge
  split
  · assumption
  · rw [show any.state = .maybe from rfl, NonLiteral.merge_maybe]

/-- Contents whose merge adds nothing to the first one's literals and state. -/
theorem merge_eq_left {a b : Content} (hs : a.literals.union b.literals = a.literals)
    (hst : a.state.merge b.state = a.state) (hm : a.state ≠ .maybe) (hc : a.literals.size ≤ literalCap) :
    merge a b = a := by
  unfold merge
  split
  · rfl
  · rw [hst]
    split
    · exact absurd ‹a.state = .maybe› hm
    · rw [hs]
      exact if_neg (Nat.not_lt.2 hc)

theorem merge_absorb (a b : Content) : merge (merge a b) b = merge a b := by
  by_cases h : a = b
  · rw [h, merge_self, merge_self]
  · rcases merge_of_ne h with e | ⟨hm, hc, e⟩
    · rw [e, any_merge]
    · rw [e]
      refine merge_eq_left ?_ (NonLiteral.merge_absorb _ _) hm hc
      refine FinSet.ext fun x => ?_
      simp only [FinSet.mem_union, or_assoc, or_self]

theorem absorb_merge (a b : Content) : merge a (merge a b) = merge a b := by
  by_cases h : a = b
  · rw [h, merge_self, merge_self]
  · rcases merge_of_ne h with e | ⟨hm, hc, e⟩
    · rw [e, merge_any]
    · rw [e]
      by_cases h' : a = ⟨a.literals.union b.literals, a.state.merge b.state⟩
      · rw [← h', merge_self]
      · have hu : a.literals.union (a.literals.union b.literals) = a.literals.union b.literals := by
          refine FinSet.ext fun x => ?_
          simp only [FinSet.mem_union, ← or_assoc, or_self]
        unfold merge
        rw [if_neg h']
        simp only [NonLiteral.absorb_merge, hu, if_neg (Nat.not_lt.2 hc)]

/-- Widened content is merged content or any content. -/
theorem widenValue_eq (old new : Content) :
    State.widenValue Domain.contents old new = merge old new ∨ State.widenValue Domain.contents old new = any := by
  show (if old = merge old new then merge old new else widen old (merge old new)) = _ ∨
    (if old = merge old new then merge old new else widen old (merge old new)) = _
  split
  · exact .inl rfl
  · show (if merge old (merge old new) = old then merge old (merge old new) else top) = _ ∨
      (if merge old (merge old new) = old then merge old (merge old new) else top) = _
    rw [absorb_merge]
    split
    · exact .inl rfl
    · exact .inr rfl

theorem merge_widenValue (old new : Content) :
    merge (State.widenValue Domain.contents old new) new = State.widenValue Domain.contents old new := by
  rcases widenValue_eq old new with e | e
  · rw [e, merge_absorb]
  · rw [e, any_merge]

end Content

/-! ### Copies -/

namespace CopyClass

@[simp]
theorem merge_self (a : CopyClass) : merge a a = a := by
  simp [merge]

/-- The merge of two different classes: their common members, if there is one. -/
theorem known_merge_known {s t : FinSet Entity} (h : s ≠ t) :
    merge (known s) (known t) = if (s.inter t).isEmpty then unknown else known (s.inter t) := by
  unfold merge
  rw [if_neg fun e => h (CopyClass.known.inj e)]

theorem merge_absorb (a b : CopyClass) : merge (merge a b) b = merge a b := by
  by_cases h : a = b
  · rw [h, merge_self, merge_self]
  · cases a <;> cases b <;> try rfl
    case notApplicable.known t => exact merge_self _
    case invalid.known t => exact merge_self _
    case known.known s t =>
      have hst : s ≠ t := fun e => h (congrArg known e)
      rw [known_merge_known hst]
      split
      · rfl
      · rename_i hne
        by_cases hct : s.inter t = t
        · rw [hct, merge_self]
        · have common : (s.inter t).inter t = s.inter t := by
            refine FinSet.ext fun x => ?_
            simp only [FinSet.mem_inter, and_assoc, and_self]
          rw [known_merge_known hct, common, if_neg hne]

theorem absorb_merge (a b : CopyClass) : merge a (merge a b) = merge a b := by
  by_cases h : a = b
  · rw [h, merge_self, merge_self]
  · cases a <;> cases b <;> try rfl
    case known.notApplicable s => exact merge_self _
    case known.invalid s => exact merge_self _
    case known.known s t =>
      have hst : s ≠ t := fun e => h (congrArg known e)
      rw [known_merge_known hst]
      split
      · rfl
      · rename_i hne
        by_cases hcs : s = s.inter t
        · rw [← hcs, merge_self]
        · have common : s.inter (s.inter t) = s.inter t := by
            refine FinSet.ext fun x => ?_
            simp only [FinSet.mem_inter, ← and_assoc, and_self]
          rw [known_merge_known hcs, common, if_neg hne]

/-- Widening is merging. -/
theorem widenValue_eq (old new : CopyClass) : State.widenValue Domain.copies old new = merge old new := by
  show (if old = merge old new then merge old new else merge old (merge old new)) = _
  rw [absorb_merge, ite_self]

theorem merge_widenValue (old new : CopyClass) :
    merge (State.widenValue Domain.copies old new) new = State.widenValue Domain.copies old new := by
  rw [widenValue_eq, merge_absorb]

end CopyClass

/-! ### Taint -/

namespace Taint

theorem merge_absorb (a b : Taint) : (a.merge b).merge b = a.merge b := by
  rw [merge_assoc, merge_self]

/-- Widening is merging. -/
theorem widenValue_eq (old new : Taint) : State.widenValue Domain.taint old new = merge old new := by
  show (if old = merge old new then merge old new else merge old (merge old new)) = _
  rw [← merge_assoc, merge_self, ite_self]

theorem merge_widenValue (old new : Taint) :
    merge (State.widenValue Domain.taint old new) new = State.widenValue Domain.taint old new := by
  rw [widenValue_eq, merge_absorb]

end Taint

/-! ### Points-to values -/

namespace Ascending

variable {α : Type} [Ord α] [Std.LawfulEqOrd α]

/-- Inserting an element changes nothing or makes the list longer. -/
theorem insert_eq_or_length (x : α) (l : List α) :
    insert id x l = l ∨ (insert id x l).length = l.length + 1 := by
  induction l with
  | nil => exact .inr rfl
  | cons y ys ih =>
    unfold insert
    split
    · exact .inr rfl
    · rename_i hc
      obtain rfl : x = y := Std.LawfulEqCmp.eq_of_compare hc
      exact .inl rfl
    · rcases ih with h | h
      · exact .inl (by rw [h])
      · exact .inr (by simp [h])

theorem length_le_insert (x : α) (l : List α) : l.length ≤ (insert id x l).length := by
  rcases insert_eq_or_length x l with h | h
  · exact Nat.le_of_eq (congrArg _ h.symm)
  · omega

theorem length_le_union (l k : List α) : l.length ≤ (union id l k).length := by
  induction k generalizing l with
  | nil => exact Nat.le_refl _
  | cons x k ih => exact Nat.le_trans (length_le_insert x l) (ih _)

/-- A list absorbs others exactly if it absorbs each of their elements. -/
theorem union_eq_left_iff {l k : List α} : union id l k = l ↔ ∀ x ∈ k, insert id x l = l := by
  induction k with
  | nil => simp [union]
  | cons x k ih =>
    have step : union id l (x :: k) = union id (insert id x l) k := rfl
    rw [step]
    constructor
    · intro h
      have hx : insert id x l = l := by
        rcases insert_eq_or_length x l with e | e
        · exact e
        · have := length_le_union (insert id x l) k
          rw [h] at this
          omega
      rw [hx] at h
      intro y hy
      rcases List.mem_cons.1 hy with rfl | hy
      · exact hx
      · exact ih.1 h y hy
    · intro h
      rw [h x List.mem_cons_self]
      exact ih.2 fun y hy => h y (List.mem_cons_of_mem _ hy)

/-- A list that absorbs its union with another one absorbs that one. -/
theorem union_eq_left_of_union {l k : List α} (h : union id l (union id l k) = l) : union id l k = l := by
  rw [union_eq_left_iff] at h ⊢
  exact fun x hx => h x (FinSet.mem_unionList.2 (.inr hx))

end Ascending

namespace Nullness

theorem absorb_merge (a b : Nullness) : a.merge (a.merge b) = a.merge b := by
  rw [← merge_assoc, merge_self]

end Nullness

namespace PointsTo

theorem merge_of_ne_known {l k : List Location} {m n : Nullness} (h : known l m ≠ known k n) :
    merge (known l m) (known k n) = known (Ascending.union id l k) (m.merge n) := by
  unfold merge
  rw [if_neg h]

theorem merge_of_ne_captures {c d : List OperationId} (h : captures c ≠ captures d) :
    merge (captures c) (captures d) = captures (Ascending.union id c d) := by
  unfold merge
  rw [if_neg h]

theorem nullness_merge_known (l k : List Location) (m n : Nullness) :
    (merge (known l m) (known k n)).nullness = m.merge n := by
  by_cases h : known l m = known k n
  · obtain ⟨-, rfl⟩ := PointsTo.known.inj h
    rw [h, merge_self, Nullness.merge_self]
    rfl
  · rw [merge_of_ne_known h]
    rfl

theorem nullness_merge_captures (c d : List OperationId) :
    (merge (captures c) (captures d)).nullness = .notNull := by
  by_cases h : captures c = captures d
  · rw [h, merge_self]
    rfl
  · rw [merge_of_ne_captures h]
    rfl

theorem nullness_merge_merge (a b : PointsTo) : (merge a (merge a b)).nullness = (merge a b).nullness := by
  by_cases h : a = b
  · rw [h, merge_self, merge_self]
  · cases a with
    | known l m =>
      cases b with
      | known k n =>
        rw [merge_of_ne_known h, nullness_merge_known, Nullness.absorb_merge]
        rfl
      | _ => cases m <;> simp [merge, nullness, unknownWith, Nullness.merge]
    | captures c =>
      cases b with
      | captures d =>
        rw [merge_of_ne_captures h, nullness_merge_captures]
        rfl
      | _ => simp [merge]
    | _ =>
      cases b with
      | known k n => cases n <;> simp [merge, nullness, unknownWith, Nullness.merge]
      | _ => simp [merge, nullness, unknownWith, Nullness.merge]

theorem unknownWith_merge {b : PointsTo} (hb : b.isCapture = false) (a : PointsTo) :
    merge (unknownWith (merge a b).nullness) b = unknownWith (merge a b).nullness := by
  cases b with
  | captures d => cases hb
  | known k n =>
    cases a with
    | known l m =>
      rw [nullness_merge_known]
      cases m <;> cases n <;> simp [merge, nullness, unknownWith, Nullness.merge]
    | _ => cases n <;> simp [merge, nullness, unknownWith, Nullness.merge]
  | _ =>
    cases a with
    | known l m => cases m <;> simp [merge, nullness, unknownWith, Nullness.merge]
    | _ => simp [merge, nullness, unknownWith, Nullness.merge]

/-- A value that absorbs its merge with another one absorbs that one. -/
theorem merge_eq_left_of_merge {a b : PointsTo} (h : merge a (merge a b) = a) : merge a b = a := by
  by_cases hab : a = b
  · rw [← hab, merge_self]
  · cases a with
    | known l m =>
      cases b with
      | known k n =>
        rw [merge_of_ne_known hab] at h ⊢
        by_cases h' : known l m = known (Ascending.union id l k) (m.merge n)
        · exact h'.symm
        · rw [merge_of_ne_known h', PointsTo.known.injEq, Nullness.absorb_merge] at h
          rw [Ascending.union_eq_left_of_union h.1, h.2]
      | _ => cases m <;> simp_all [merge, nullness, unknownWith, Nullness.merge]
    | captures c =>
      cases b with
      | captures d =>
        rw [merge_of_ne_captures hab] at h ⊢
        by_cases h' : captures c = captures (Ascending.union id c d)
        · exact h'.symm
        · rw [merge_of_ne_captures h', PointsTo.captures.injEq] at h
          rw [Ascending.union_eq_left_of_union h]
      | _ => simp_all [merge]
    | _ =>
      cases b with
      | known k n => cases n <;> simp_all [merge, nullness, unknownWith, Nullness.merge]
      | _ => simp_all [merge, nullness, unknownWith, Nullness.merge]

/-- A widened value is the old one, which then absorbs the new one, or it has no locations. -/
theorem widenValue_eq (old new : PointsTo) :
    State.widenValue Domain.pointsTo old new = old ∧ merge old new = old ∨
      State.widenValue Domain.pointsTo old new = unknownWith (merge old new).nullness := by
  have value : State.widenValue Domain.pointsTo old new =
      if old = merge old new then merge old new
      else if merge old (merge old new) = old then merge old (merge old new)
      else unknownWith (merge old (merge old new)).nullness := rfl
  by_cases h : old = merge old new
  · rw [if_pos h, ← h] at value
    exact .inl ⟨value, h.symm⟩
  · rw [if_neg h] at value
    by_cases h' : merge old (merge old new) = old
    · exact absurd (merge_eq_left_of_merge h').symm h
    · rw [if_neg h', nullness_merge_merge] at value
      exact .inr value

/-- Unknown objects absorb every address but one of captured storage, which is not null
either and yet none of them. -/
theorem merge_unknownWith_iff (a b : PointsTo) :
    merge (unknownWith (merge a b).nullness) b = unknownWith (merge a b).nullness ↔
      ¬ (unknownWith (merge a b).nullness = unknownNotNull ∧ b.isCapture = true) := by
  cases hb : b.isCapture with
  | false => simp [unknownWith_merge hb a]
  | true =>
    obtain ⟨d, rfl⟩ : ∃ d, b = captures d := by
      cases b <;> simp_all [isCapture]
    cases a with
    | captures c =>
      rw [nullness_merge_captures]
      simp [unknownWith, merge]
    | _ => simp [merge, nullness, unknownWith]

/-- A widened value absorbs what it was widened by, unless it took in the address of captured
storage and became unknown objects that are not null. -/
theorem merge_widenValue_iff (old new : PointsTo) :
    merge (State.widenValue Domain.pointsTo old new) new = State.widenValue Domain.pointsTo old new ↔
      ¬ (State.widenValue Domain.pointsTo old new = unknownNotNull ∧ new.isCapture = true) := by
  rcases widenValue_eq old new with ⟨hw, hm⟩ | hw
  · rw [hw, hm]
    refine iff_of_true rfl ?_
    rintro ⟨rfl, hc⟩
    cases new <;> simp [isCapture] at hc
    simp [merge] at hm
  · rw [hw]
    exact merge_unknownWith_iff old new

end PointsTo

end Dataflow
