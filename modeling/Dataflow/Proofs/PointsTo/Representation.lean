import Dataflow.Proofs.Contracts.Constructors

/-!
# The parts of points-to values

A points-to value has a kind, locations, captures and a nullness. Its constructors, the changes of nullness,
merging and widening keep these four in step.

## The notions

* `PointsTo.IsRegular`: the parts fit the kind.
* `PointsTo.Renulls`: a change of nullness refuses some values, and does what it is named for to all others.

## What is proved

All values that come about are regular, and so they are merged and widened without a rule being broken; a change of nullness
refuses addresses of captured storage only, and null where it is to become a value that may be null
(`PointsTo.Obtained.upholds`).
-/

namespace Dataflow

namespace PointsTo

variable {v w : PointsTo} {n : Nullness}

/-! ### Parts by kind -/

/-- The parts of a value fit its kind. -/
structure IsRegular (v : PointsTo) : Prop where
  /-- Known locations are some locations with a definite nullness, and not the null location if it is not null. -/
  known : v.isKnown = true → v.locations ≠ [] ∧ v.captureSet = [] ∧
    (v.nullness = .null ∨ v.nullness = .notNull ∨ v.nullness = .maybeNull) ∧
      (v.nullness = .notNull → .null ∉ v.locations)
  /-- The address of captured storage is that of some captures, and not null. -/
  captured : v.isCapture = true → v.captureSet ≠ [] ∧ v.locations = [] ∧ v.nullness = .notNull
  /-- Any other value has neither locations nor captures. -/
  bare : v.isKnown = false → v.isCapture = false → v.locations = [] ∧ v.captureSet = []
  /-- Unless the locations are known the kind determines the nullness. -/
  determined : ∀ w : PointsTo, v.isKnown = false → w.kindText = v.kindText → w.nullness = v.nullness

theorem nullness_of_kindText (hv : v.isKnown = false) (h : w.kindText = v.kindText) : w.nullness = v.nullness := by
  cases v with
  | known => cases hv
  | _ => cases w <;> simp_all [kindText, nullness]

theorem IsRegular.of_valid (hv : v.Valid) : v.IsRegular where
  known := by
    intro h
    obtain ⟨l, n, rfl⟩ := exists_of_isKnown h
    obtain ⟨-, some, definite, hnull⟩ := hv
    refine ⟨some, rfl, ?_, hnull⟩
    cases n <;> simp_all [nullness, Nullness.isDefinite]
  captured := by
    intro h
    obtain ⟨c, rfl⟩ := exists_of_isCapture h
    exact ⟨hv.2, rfl, rfl⟩
  bare := by
    intro hk hc
    cases v with
    | known => cases hk
    | captures => cases hc
    | _ => exact ⟨rfl, rfl⟩
  determined := fun _ => nullness_of_kindText

/-! ### Changes of nullness -/

/-- A change refuses a value exactly if it is to. Any other value gets the nullness and keeps its objects, and making
the change again changes nothing more. -/
structure Renulls (change : PointsTo → Checked PointsTo) (n : Nullness) (refused : Prop) (v : PointsTo) : Prop where
  /-- What is refused. -/
  refuses : (∃ e, change v = .error e) ↔ refused
  /-- What is made of any other value. -/
  makes : ¬ refused → ∃ w, change v = .ok w ∧ w.nullness = n ∧ w.heapLocations = v.heapLocations ∧ change w = .ok w

theorem locations_ascending (hv : v.Valid) : Ascending id v.locations := by
  cases v with
  | known => exact hv.1
  | _ => exact Ascending.nil

/-- A value of the same objects has been made, or of none if there were none. -/
theorem exists_ofLocations {l : List Location} (hl : Ascending id l) (hn : n.isDefinite = true)
    (hnull : n = .notNull → .null ∉ l) (same : l.filter (fun x => !x.isSentinel) = v.heapLocations) :
    ∃ w, (if l.isEmpty then .ok (unknownWith n) else ofLocations l n) = .ok w ∧ w.isCapture = false ∧
      w.nullness = n ∧ w.heapLocations = v.heapLocations := by
  cases h : l.isEmpty with
  | true =>
    refine ⟨unknownWith n, rfl, isCapture_unknownWith n, nullness_unknownWith hn, ?_⟩
    rw [← same, List.isEmpty_iff.1 h]
    cases n <;> rfl
  | false =>
    have hne : l ≠ [] := fun e => by
      rw [e] at h
      cases h
    exact ⟨known l n, ofLocations_of_valid ⟨hl, hne, hn, hnull⟩, rfl, rfl, same⟩

/-- A change that gives a nullness to some locations, among them all objects of the value. -/
theorem Renulls.of_locations {change : PointsTo → Checked PointsTo} {refused : Prop} {l : List Location}
    (hl : Ascending id l) (hn : n.isDefinite = true) (hnull : n = .notNull → .null ∉ l)
    (same : l.filter (fun x => !x.isSentinel) = v.heapLocations) (refuses : refused → ∃ e, change v = .error e)
    (notCapture : ¬ refused → v.isCapture = false)
    (keeps : ∀ w : PointsTo, w.isCapture = false → w.nullness = n → change w = .ok w)
    (makes : ¬ refused → v.nullness ≠ n → change v = if l.isEmpty then .ok (unknownWith n) else ofLocations l n) :
    Renulls change n refused v := by
  have made : ¬ refused →
      ∃ w, change v = .ok w ∧ w.nullness = n ∧ w.heapLocations = v.heapLocations ∧ change w = .ok w := by
    intro h
    by_cases hv : v.nullness = n
    · have kept := keeps v (notCapture h) hv
      exact ⟨v, kept, hv, rfl, kept⟩
    · obtain ⟨w, hw, hc, hnw, heap⟩ := exists_ofLocations hl hn hnull same
      exact ⟨w, (makes h hv).trans hw, hnw, heap, keeps w hc hnw⟩
  refine ⟨⟨fun ⟨e, he⟩ => Classical.byContradiction fun h => ?_, refuses⟩, made⟩
  obtain ⟨w, hw, -⟩ := made h
  rw [hw] at he
  cases he

/-- The null location is no object. -/
theorem filter_ne_null (l : List Location) :
    (l.filter (· ≠ .null)).filter (fun x => !x.isSentinel) = l.filter (fun x => !x.isSentinel) := by
  rw [List.filter_filter]
  refine List.filter_congr fun x _ => ?_
  cases x <;> simp [Location.isSentinel]

theorem makeNonNull_renulls (hv : v.Valid) : Renulls makeNonNull .notNull (v.isCapture = true) v := by
  refine .of_locations (Ascending.filter_ascending (· ≠ .null) (locations_ascending hv)) rfl (by simp)
    (filter_ne_null v.locations) (fun h => ⟨.captureNullness, ?_⟩) Bool.eq_false_iff.2 (fun w hc hn => ?_) fun h hn => ?_
  · simp [makeNonNull, h]
  · simp [makeNonNull, hc, hn]
  · rw [makeNonNull, if_neg h, if_neg hn]
    split
    · rename_i hnil
      rw [hnil]
      rfl
    · rename_i hne
      rw [if_neg (by simpa using hne)]

theorem makeNull_renulls (hv : v.Valid) : Renulls makeNull .null (v.isCapture = true) v := by
  refine .of_locations (locations_ascending hv) rfl Nullness.noConfusion rfl (fun h => ⟨.captureNullness, ?_⟩)
    Bool.eq_false_iff.2 (fun w hc hn => ?_) fun h hn => ?_
  · simp [makeNull, h]
  · simp [makeNull, hc, hn]
  · rw [makeNull, if_neg h, if_neg hn]
    rfl

theorem makeMayBeNull_renulls (hv : v.Valid) :
    Renulls makeMayBeNull .maybeNull (v.isCapture = true ∨ v.nullness = .null) v := by
  refine .of_locations (locations_ascending hv) rfl Nullness.noConfusion rfl (fun h => ?_)
    (fun h => Bool.eq_false_iff.2 (not_or.1 h).1) (fun w hc hn => ?_) fun h hn => ?_
  · cases hc : v.isCapture with
    | true => exact ⟨.captureNullness, by simp [makeMayBeNull, hc]⟩
    | false =>
      have null : v.nullness = .null := h.resolve_left (by simp [hc])
      exact ⟨.nullMayBeNull, by simp [makeMayBeNull, hc, null]⟩
  · simp [makeMayBeNull, hc, hn]
  · rw [makeMayBeNull, if_neg (not_or.1 h).1, if_neg (not_or.1 h).2, if_neg hn]
    rfl

/-! ### All values -/

/-- A widened value comes about as well. -/
theorem Obtained.widen (hv : v.Obtained) (hw : w.Obtained) : (widen v w).Obtained := by
  unfold PointsTo.widen
  dsimp only
  split
  · exact .merged hv hw
  · exact .unknownWith _

/-- **The parts of points-to values.** Whatever comes about is regular; two such values are merged and widened without
a rule being broken, to another one; and the changes of nullness do what they are named for, except that they
refuse addresses of captured storage, and null where it is to become a value that may be null. -/
theorem Obtained.upholds (hv : v.Obtained) :
    v.IsRegular ∧
      (∀ w : PointsTo, w.Obtained →
        (mergeChecked v w = .ok (merge v w) ∧ (merge v w).Obtained) ∧
          (widenChecked v w = .ok (PointsTo.widen v w) ∧ (PointsTo.widen v w).Obtained)) ∧
      Renulls makeNonNull .notNull (v.isCapture = true) v ∧ Renulls makeNull .null (v.isCapture = true) v ∧
      Renulls makeMayBeNull .maybeNull (v.isCapture = true ∨ v.nullness = .null) v := by
  refine ⟨.of_valid hv.valid, fun w hw => ⟨⟨?_, ?_⟩, ?_, ?_⟩, ?_, ?_, ?_⟩
  · exact mergeChecked_eq hv.valid hw.valid
  · exact .merged hv hw
  · exact widenChecked_eq hv.valid hw.valid
  · exact hv.widen hw
  · exact makeNonNull_renulls hv.valid
  · exact makeNull_renulls hv.valid
  · exact makeMayBeNull_renulls hv.valid

/-- The null reference is merged with a number, becomes an unknown value where it is not null, and is refused where it may
be null. -/
theorem upholds_nullLocation : mergeChecked nullLocation noLocation = .ok (known [.null, .noLocation] .maybeNull) ∧
    (∃ w, makeNonNull nullLocation = .ok w ∧ w.nullness = .notNull) ∧ ∃ e, makeMayBeNull nullLocation = .error e := by
  obtain ⟨-, joined, nonNull, -, mayBeNull⟩ := Obtained.upholds .nullLocation
  obtain ⟨w, hw, hn, -⟩ := nonNull.makes (by decide)
  exact ⟨(joined noLocation .noLocation).1.1.trans (by decide +kernel), ⟨w, hw, hn⟩, mayBeNull.refuses.2 (.inr rfl)⟩

end PointsTo

end Dataflow
