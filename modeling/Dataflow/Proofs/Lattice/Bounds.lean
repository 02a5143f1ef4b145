import Dataflow.Proofs.Lattice.Laws

/-!
# Widening and upper bounds

A loop is widened so that its head settles on something that covers all rounds. A widened value
should therefore be an upper bound, in the order that merging induces, of the value before and of
the one that flows in.

## What is proved

Widening copies and taint is merging. Content is widened to its merge or to any content. So
widening gives upper bounds in these three domains. It does so for points-to values, too, unless the value
gains an address of captured storage that it did not hold (`PointsTo.GainsAddress`). Such a value
is widened to unknown objects that are not null, whose merge with the address is unknown
altogether (`PointsTo.GainsAddress.merge_widen`). `widen_bounds` puts the domains together.
-/

namespace Dataflow

/-- Widening the first value by the second one gives a value that absorbs both. -/
def Domain.WidensAbove {V : Type} (D : Domain V) (a b : V) : Prop :=
  D.merge a (D.widen a b) = D.widen a b ∧ D.merge b (D.widen a b) = D.widen a b

/-! ### Merging and giving up -/

theorem CopyClass.widensAbove {a b : CopyClass} (ha : a.Valid) (hb : b.Valid) : Domain.copies.WidensAbove a b := by
  refine ⟨absorb_merge a b, ?_⟩
  show merge b (merge a b) = merge a b
  rw [merge_comm ha hb, absorb_merge]

theorem Taint.widensAbove (a b : Taint) : Domain.taint.WidensAbove a b := by
  cases a <;> cases b <;> exact ⟨rfl, rfl⟩

theorem Content.widensAbove (a b : Content) : Domain.contents.WidensAbove a b := by
  show merge a (widen a b) = widen a b ∧ merge b (widen a b) = widen a b
  unfold widen
  dsimp only
  split
  · exact ⟨absorb_merge a b, by rw [merge_comm a b, absorb_merge]⟩
  · exact ⟨merge_any a, merge_any b⟩

/-! ### Points-to values -/

namespace PointsTo

variable {a b : PointsTo}

/-- A value of which nothing was known, or an address, takes in an address that it did not
hold. -/
def GainsAddress (a b : PointsTo) : Prop :=
  ∃ d, b = captures d ∧ (a = undefined ∨ a = invalid ∨ ∃ c, a = captures c ∧ ¬ d ⊆ c)

theorem widen_of_merge_eq (h : merge a b = a) : widen a b = a := by
  unfold widen
  rw [if_pos h, h]

theorem widen_of_merge_ne (h : merge a b ≠ a) : widen a b = unknownWith (merge a b).nullness := by
  unfold widen
  rw [if_neg h]

/-- Captures absorb their own members only. -/
theorem merge_captures_eq_left_iff {c d : List OperationId} (hc : Ascending id c) :
    merge (captures c) (captures d) = captures c ↔ d ⊆ c := by
  rw [merge_captures hc, PointsTo.captures.injEq]
  constructor
  · intro h x hx
    rw [← h]
    exact FinSet.mem_unionList.2 (.inr hx)
  · intro h
    refine Ascending.ext_of_mem (Ascending.union_ascending hc d) hc fun x => ?_
    rw [FinSet.mem_unionList]
    exact ⟨fun hx => hx.elim id (h ·), .inl⟩

/-- What a value that gains an address is widened to is not that address, nor is it null. -/
theorem GainsAddress.merge_widen (ha : a.Valid) (h : a.GainsAddress b) :
    widen a b = unknownNotNull ∧ merge b (widen a b) = unknown := by
  obtain ⟨d, rfl, hcases⟩ := h
  have gained : merge a (captures d) ≠ a ∧ (merge a (captures d)).nullness = .notNull := by
    rcases hcases with rfl | rfl | ⟨c, rfl, hd⟩
    · exact ⟨by simp, by simp [nullness]⟩
    · exact ⟨by simp [merge], by simp [merge, nullness]⟩
    · exact ⟨fun e => hd ((merge_captures_eq_left_iff ha.1).1 e), nullness_merge_captures c d⟩
  have hw : widen a (captures d) = unknownNotNull := by
    rw [widen_of_merge_ne gained.1, gained.2]
    rfl
  rw [hw]
  exact ⟨rfl, by simp [merge]⟩

/-- Addresses and references together make an unknown value, and references make references. -/
theorem merge_cases (ha : a.Valid) (hb : b.Valid) (h : merge a b ≠ a) :
    a.GainsAddress b ∨ merge a b = unknown ∨ a.isCapture = false ∧ b.isCapture = false := by
  cases hcb : b.isCapture with
  | false =>
    cases hca : a.isCapture with
    | false => exact .inr (.inr ⟨rfl, rfl⟩)
    | true =>
      obtain ⟨c, rfl⟩ := exists_of_isCapture hca
      rcases isProper_cases b with rfl | rfl | hpb
      · exact absurd (merge_undefined _) h
      · exact absurd (merge_invalid PointsTo.noConfusion) h
      · exact .inr (.inl (merge_of_isCapture_ne (captures_isProper c) hpb (by rw [hca, hcb]; decide)))
  | true =>
    obtain ⟨d, rfl⟩ := exists_of_isCapture hcb
    rcases isProper_cases a with rfl | rfl | hpa
    · exact .inl ⟨d, rfl, .inl rfl⟩
    · exact .inl ⟨d, rfl, .inr (.inl rfl)⟩
    · rcases captures_or_isReference ha hpa with ⟨c, rfl, hc, -⟩ | hra
      · exact .inl ⟨d, rfl, .inr (.inr ⟨c, rfl, fun hd => h ((merge_captures_eq_left_iff hc).2 hd)⟩)⟩
      · exact .inr (.inl (merge_of_isCapture_ne hpa (captures_isProper d) (by rw [hra.notCapture, hcb]; decide)))

theorem merge_eq_of_absorbed {w : PointsTo} (ha : a.Valid) (hw : w.Valid) (h : merge w a = w) : merge a w = w := by
  rw [merge_comm ha hw, h]

theorem widensAbove_iff (ha : a.Valid) (hb : b.Valid) : Domain.pointsTo.WidensAbove a b ↔ ¬ a.GainsAddress b := by
  show merge a (widen a b) = widen a b ∧ merge b (widen a b) = widen a b ↔ _
  constructor
  · rintro ⟨-, hbw⟩ hgain
    obtain ⟨hw, hm⟩ := hgain.merge_widen ha
    rw [hm, hw] at hbw
    cases hbw
  · intro hgain
    by_cases hm : merge a b = a
    · rw [widen_of_merge_eq hm]
      exact ⟨merge_self a, (merge_comm hb ha).trans hm⟩
    · rw [widen_of_merge_ne hm]
      have hw : (unknownWith (merge a b).nullness).Valid := (unknownWith_isReference _).valid
      rcases (merge_cases ha hb hm).resolve_left hgain with hu | ⟨hca, hcb⟩
      · rw [hu]
        exact ⟨merge_unknown a, merge_unknown b⟩
      · refine ⟨merge_eq_of_absorbed ha hw ?_, merge_eq_of_absorbed hb hw (unknownWith_merge hcb a)⟩
        rw [merge_comm ha hb]
        exact unknownWith_merge hca b

end PointsTo

/-! ### All domains -/

/-- Widening gives an upper bound of both values in every domain, with one exception: a points-to value
that gains an address of captured storage. -/
theorem widen_bounds {a b : PointsTo} {c d : CopyClass} (ha : a.Valid) (hb : b.Valid) (hc : c.Valid) (hd : d.Valid)
    (x y : Content) (s t : Taint) :
    (Domain.pointsTo.WidensAbove a b ↔ ¬ a.GainsAddress b) ∧ Domain.copies.WidensAbove c d ∧
      Domain.contents.WidensAbove x y ∧ Domain.taint.WidensAbove s t :=
  ⟨PointsTo.widensAbove_iff ha hb, CopyClass.widensAbove hc hd, Content.widensAbove x y, Taint.widensAbove s t⟩

/-- A value that is no object is widened by the null reference, and a class of copies by a path that
cannot be taken. -/
theorem widen_bounds_null :
    Domain.pointsTo.WidensAbove .noLocation .nullLocation ∧ Domain.copies.WidensAbove .unknown .invalid := by
  obtain ⟨pointsTo, copies, -, -⟩ := widen_bounds (c := .unknown) (d := .invalid) PointsTo.Obtained.noLocation.valid
    PointsTo.Obtained.nullLocation.valid trivial trivial Content.any Content.any .tainted .notTainted
  refine ⟨pointsTo.2 ?_, copies⟩
  rintro ⟨d, hd, -⟩
  cases hd

/-- A variable that was not assigned is widened by the address of captured storage, which its constructor
makes, to a value that is not null. The address takes it to one that may be. -/
theorem not_widensAbove_address :
    PointsTo.Obtained (.captures [⟨3⟩]) ∧ ¬ Domain.pointsTo.WidensAbove .undefined (.captures [⟨3⟩]) := by
  have address : PointsTo.Obtained (.captures [⟨3⟩]) := .captures (c := [⟨3⟩]) rfl
  have gain : PointsTo.undefined.GainsAddress (.captures [⟨3⟩]) := ⟨_, rfl, .inl rfl⟩
  exact ⟨address, fun above => (PointsTo.widensAbove_iff PointsTo.Obtained.undefined.valid address.valid).1 above gain⟩

end Dataflow
