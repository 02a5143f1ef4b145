import Dataflow.Proofs.Lattice.Laws

/-!
# The least and the greatest value

A domain names a value that says nothing yet and one that says nothing any more. By the comparison that
merging induces every value should lie between these two.

## What is proved

The greatest value absorbs every other one in all four domains. The least one adds nothing to points-to
values, to classes of copies and to taint. It adds nothing to content either, unless this lists literals and
may yet be anything else (`Content.IsVague`): such content is merged with nothing but itself, and the
least content takes its literals away (`Content.IsVague.bottom_merge`). `extremes_bound` puts the domains
together.
-/

namespace Dataflow

namespace Domain

variable {V : Type} [DecidableEq V] {P : V → Prop} {D : Domain V} {v : V}

/-- The least value adds nothing to a value, and by the comparison it is at most that value. -/
def BoundsBelow (D : Domain V) (v : V) : Prop := D.merge D.bottom v = v ∧ AtMost D.merge D.bottom v

/-- The greatest value absorbs a value, which by the comparison is at most the greatest one. -/
def BoundsAbove (D : Domain V) (v : V) : Prop := D.merge v D.top = D.top ∧ AtMost D.merge v D.top

/-- What the least value adds nothing to is at least the least value. -/
theorem boundsBelow_iff (law : IsSemilattice P D.merge D.top) (hv : P v) :
    D.BoundsBelow v ↔ D.merge D.bottom v = v :=
  and_iff_left_of_imp (law.atMost_iff hv).2

theorem boundsAbove (law : IsSemilattice P D.merge D.top) (hv : P v) : D.BoundsAbove v := by
  have absorbed : D.merge v D.top = D.top := (law.absorbs v hv).2
  exact ⟨absorbed, (law.atMost_iff law.hasTop).2 absorbed⟩

end Domain

namespace Content

variable {c : Content}

/-- There are literals listed besides which there may be anything else. -/
def IsVague (c : Content) : Prop := c.state = .maybe ∧ c ≠ any

/-- The least content takes the literals of vague content away. -/
theorem IsVague.bottom_merge (h : c.IsVague) : merge bottom c = any := by
  have different : c ≠ bottom := fun e => by
    have := h.1
    rw [e] at this
    cases this
  rw [merge_comm, merge_of_maybe h.1, if_neg different]

/-- It adds nothing to content whose literals are all that it may be. -/
theorem bottom_merge_of_ne_maybe (hs : c.IsSmall) (h : c.state ≠ .maybe) : merge bottom c = c := by
  have union : bottom.literals.union c.literals = c.literals := FinSet.ext fun x => by
    simp [bottom, undefined, FinSet.not_mem_empty]
  have state : bottom.state.merge c.state = c.state := by
    cases c.state <;> rfl
  rw [merge_eq_capped (by decide) h (Nat.zero_le _), union, state, capped, if_neg (Nat.not_lt.2 hs)]

theorem bottom_merge_iff (hs : c.IsSmall) : merge bottom c = c ↔ ¬ c.IsVague := by
  constructor
  · intro same vague
    exact vague.2 (same.symm.trans vague.bottom_merge)
  · intro clear
    by_cases h : c.state = .maybe
    · obtain rfl : c = any := Decidable.not_not.1 fun hne => clear ⟨h, hne⟩
      exact merge_any bottom
    · exact bottom_merge_of_ne_maybe hs h

end Content

/-- Whatever constructors, changes and merges make lies between the least and the greatest value of its domain,
with one exception: the least content is not below vague content. -/
theorem extremes_bound {v : PointsTo} {s : CopyClass} {c : Content} (hv : v.Obtained) (hs : s.Obtained)
    (hc : c.Obtained) (t : Taint) :
    (Domain.pointsTo.BoundsBelow v ∧ Domain.pointsTo.BoundsAbove v) ∧
      (Domain.copies.BoundsBelow s ∧ Domain.copies.BoundsAbove s) ∧
      ((Domain.contents.BoundsBelow c ↔ ¬ c.IsVague) ∧ Domain.contents.BoundsAbove c) ∧
      (Domain.taint.BoundsBelow t ∧ Domain.taint.BoundsAbove t) := by
  refine ⟨⟨?_, ?_⟩, ⟨?_, ?_⟩, ⟨?_, ?_⟩, ⟨?_, ?_⟩⟩
  · exact (Domain.boundsBelow_iff PointsTo.isSemilattice hv.valid).2 (PointsTo.undefined_merge v)
  · exact Domain.boundsAbove PointsTo.isSemilattice hv.valid
  · exact (Domain.boundsBelow_iff CopyClass.isSemilattice hs.valid).2 (CopyClass.notApplicable_merge s)
  · exact Domain.boundsAbove CopyClass.isSemilattice hs.valid
  · exact (Domain.boundsBelow_iff Content.isSemilattice hc.isSmall).trans (Content.bottom_merge_iff hc.isSmall)
  · exact Domain.boundsAbove Content.isSemilattice hc.isSmall
  · exact (Domain.boundsBelow_iff taint_isSemilattice trivial).2 (by cases t <;> rfl)
  · exact Domain.boundsAbove taint_isSemilattice trivial

namespace Content

/-- One literal on a path that cannot be taken. -/
def unreachableOne : Content := ⟨FinSet.singleton (.integer 1), .invalid⟩

/-- One literal, or anything else. -/
def oneOrElse : Content := ⟨FinSet.singleton (.integer 1), .maybe⟩

theorem unreachableOne_obtained : unreachableOne.Obtained := by
  have made : ofLiterals (FinSet.singleton (.integer 1)) .invalid = .ok unreachableOne := rfl
  exact .literals made

theorem oneOrElse_obtained : oneOrElse.Obtained := by
  have made : ofLiterals (FinSet.singleton (.integer 1)) .maybe = .ok oneOrElse := rfl
  exact .literals made

end Content

/-- The null location that may be null, classes of copies of which nothing is known, and a literal on a path
that cannot be taken are all above the least value. -/
theorem extremes_bound_unreachable :
    Domain.pointsTo.BoundsBelow (.known [.null] .maybeNull) ∧ Domain.copies.BoundsAbove .unknown ∧
      Domain.contents.BoundsBelow .unreachableOne := by
  have null : PointsTo.Obtained (.known [.null] .maybeNull) := .locations (l := [.null]) (n := .maybeNull) rfl
  obtain ⟨pointsTo, copies, contents, -⟩ := extremes_bound null .unknown Content.unreachableOne_obtained .tainted
  refine ⟨pointsTo.1, copies.2, contents.1.2 ?_⟩
  rintro ⟨state, -⟩
  cases state

/-- The constructor of literals makes vague content. Merging it with the least content forgets its literal, and the
two are not comparable. -/
theorem not_boundsBelow_oneOrElse :
    Content.oneOrElse.Obtained ∧ ¬ Domain.contents.BoundsBelow .oneOrElse ∧
      compareByMerge Content.merge Content.bottom .oneOrElse = none := by
  refine ⟨Content.oneOrElse_obtained, fun below => ?_, by decide⟩
  exact absurd below.1 (by decide)

end Dataflow
