import Dataflow.Proofs.Lattice.Semilattice

/-!
# Merging is a join

On all points-to values that come about by constructors, changes of nullness and merges, merging is
commutative, associative and idempotent, and the unknown value absorbs. With the laws of copies and
literal contents this makes merges least upper bounds in each of the three orders that they
induce (`merge_laws`).

## What is proved

Of a points-to value nothing is known yet, or it is proper (`IsProper`); a proper value is the
address of captured storage or a reference. Addresses and references have nothing in common
(`merge_of_isCapture_ne`). A merge of references is described by two facts: its locations are known if
those of both are, and its nullness is the merge of theirs (`IsReference.merge`). So the laws come down
to those of sorted lists and of nullness.
-/

namespace Dataflow

namespace Ascending

variable {α : Type} [Ord α] [Std.TransOrd α] [Std.LawfulEqOrd α] {l k j : List α}

theorem ext_of_mem (hl : Ascending id l) (hk : Ascending id k) (h : ∀ x, x ∈ l ↔ x ∈ k) : l = k := by
  have sets : (⟨l, hl⟩ : FinSet α) = ⟨k, hk⟩ := FinSet.ext fun x => by
    rw [← FinSet.mem_toList, ← FinSet.mem_toList]
    exact h x
  exact congrArg FinSet.toList sets

theorem union_self (hl : Ascending id l) : union id l l = l :=
  ext_of_mem (union_ascending hl l) hl fun x => by rw [FinSet.mem_unionList, or_self]

theorem union_comm (hl : Ascending id l) (hk : Ascending id k) : union id l k = union id k l :=
  ext_of_mem (union_ascending hl k) (union_ascending hk l) fun x => by
    rw [FinSet.mem_unionList, FinSet.mem_unionList, or_comm]

theorem union_assoc (hl : Ascending id l) (k j : List α) :
    union id (union id l k) j = union id l (union id k j) :=
  ext_of_mem (union_ascending (union_ascending hl k) j) (union_ascending hl _) fun x => by
    simp only [FinSet.mem_unionList, or_assoc]

end Ascending

namespace PointsTo

/-- The values that come about by constructors, changes of nullness and merges. -/
inductive Obtained : PointsTo → Prop where
  /-- Nothing is known yet. -/
  | undefined : Obtained undefined
  /-- The path cannot be taken. -/
  | invalid : Obtained invalid
  /-- An unknown value of a nullness. -/
  | unknownWith (n : Nullness) : Obtained (unknownWith n)
  /-- A value that references nothing. -/
  | noLocation : Obtained noLocation
  /-- The null reference. -/
  | nullLocation : Obtained nullLocation
  /-- One object. -/
  | location {l : Location} {mayBeNull : Bool} {v : PointsTo} : ofLocation l mayBeNull = .ok v → Obtained v
  /-- Some locations. -/
  | locations {l : List Location} {n : Nullness} {v : PointsTo} : ofLocations l n = .ok v → Obtained v
  /-- The address of captured storage. -/
  | captures {c : List OperationId} {v : PointsTo} : ofCaptures c = .ok v → Obtained v
  /-- The value where it is not null. -/
  | nonNull {v w : PointsTo} : Obtained v → makeNonNull v = .ok w → Obtained w
  /-- The value where it is null. -/
  | null {v w : PointsTo} : Obtained v → makeNull v = .ok w → Obtained w
  /-- The value where it may be null. -/
  | mayBeNull {v w : PointsTo} : Obtained v → makeMayBeNull v = .ok w → Obtained w
  /-- A merge. -/
  | merged {v w : PointsTo} : Obtained v → Obtained w → Obtained (merge v w)

variable {a b c : PointsTo}

/-- Merging known locations with themselves is no exception. -/
theorem merge_known {l : List Location} (hl : Ascending id l) (k : List Location) (m n : Nullness) :
    merge (known l m) (known k n) = known (Ascending.union id l k) (m.merge n) := by
  by_cases h : known l m = known k n
  · obtain ⟨rfl, rfl⟩ := PointsTo.known.inj h
    rw [merge_self, Nullness.merge_self, Ascending.union_self hl]
  · exact merge_of_ne_known h

theorem merge_captures {c : List OperationId} (hc : Ascending id c) (d : List OperationId) :
    merge (captures c) (captures d) = captures (Ascending.union id c d) := by
  by_cases h : captures c = captures d
  · obtain rfl := PointsTo.captures.inj h
    rw [merge_self, Ascending.union_self hc]
  · exact merge_of_ne_captures h

@[simp]
theorem undefined_merge (a : PointsTo) : merge undefined a = a := by
  cases a <;> simp [merge]

@[simp]
theorem merge_undefined (a : PointsTo) : merge a undefined = a := by
  cases a <;> simp [merge]

@[simp]
theorem unknown_merge (a : PointsTo) : merge unknown a = unknown := by
  cases a <;> simp [merge]

@[simp]
theorem merge_unknown (a : PointsTo) : merge a unknown = unknown := by
  cases a <;> simp [merge]

/-- Something is known: the path can be taken, and it has been. -/
def IsProper (a : PointsTo) : Prop := a ≠ undefined ∧ a ≠ invalid

theorem invalid_merge (h : a ≠ undefined) : merge invalid a = a := by
  cases a <;> simp_all [merge]

theorem merge_invalid (h : a ≠ undefined) : merge a invalid = a := by
  cases a <;> simp_all [merge]

theorem unknownWith_isProper (n : Nullness) : (unknownWith n).IsProper := by
  cases n <;> exact ⟨PointsTo.noConfusion, PointsTo.noConfusion⟩

/-! #### What a merge of proper values is -/

theorem isDefinite_nullness (ha : a.Valid) (proper : a.IsProper) : a.nullness.isDefinite = true := by
  cases a with
  | undefined => exact absurd rfl proper.1
  | invalid => exact absurd rfl proper.2
  | known l n => exact ha.2.2.1
  | _ => rfl

/-- An address of captured storage and something else have nothing in common. -/
theorem merge_of_isCapture_ne (ha : a.IsProper) (hb : b.IsProper) (h : a.isCapture ≠ b.isCapture) :
    merge a b = unknown := by
  cases a <;> cases b <;> simp_all [IsProper, isCapture, merge]

theorem nullness_unknownWith {n : Nullness} (h : n.isDefinite = true) : (unknownWith n).nullness = n := by
  cases n <;> first | rfl | cases h

theorem isDefinite_merge {m n : Nullness} (hm : m.isDefinite = true) (hn : n.isDefinite = true) :
    (m.merge n).isDefinite = true := by
  cases m <;> cases n <;> first | rfl | cases hm

@[simp]
theorem isCapture_unknownWith (n : Nullness) : (unknownWith n).isCapture = false := by
  cases n <;> rfl

@[simp]
theorem isKnown_unknownWith (n : Nullness) : (unknownWith n).isKnown = false := by
  cases n <;> rfl

/-- A reference: neither an address of captured storage nor a value of which nothing is known. -/
structure IsReference (a : PointsTo) : Prop where
  /-- It satisfies the invariants of its constructors. -/
  valid : a.Valid
  /-- Something is known. -/
  proper : a.IsProper
  /-- It is no address of captured storage. -/
  notCapture : a.isCapture = false

theorem unknownWith_isReference (n : Nullness) : (unknownWith n).IsReference :=
  ⟨by cases n <;> trivial, unknownWith_isProper n, isCapture_unknownWith n⟩

theorem IsReference.isDefinite (ha : a.IsReference) : a.nullness.isDefinite = true :=
  isDefinite_nullness ha.valid ha.proper

theorem union_valid {l k : List Location} {m n : Nullness} (ha : (known l m).Valid) (hb : (known k n).Valid) :
    (known (Ascending.union id l k) (m.merge n)).Valid := by
  obtain ⟨hl, hne, hm, hnull⟩ := ha
  obtain ⟨-, -, hn, hnull'⟩ := hb
  refine ⟨Ascending.union_ascending hl k, fun h => ?_, isDefinite_merge hm hn, fun h hmem => ?_⟩
  · obtain ⟨x, hx⟩ := List.exists_mem_of_ne_nil l hne
    have : x ∈ Ascending.union id l k := FinSet.mem_unionList.2 (.inl hx)
    rw [h] at this
    cases this
  · obtain ⟨rfl, rfl⟩ : m = .notNull ∧ n = .notNull := by
      cases m <;> cases n <;> simp_all [Nullness.merge, Nullness.isDefinite]
    exact (FinSet.mem_unionList.1 hmem).elim (hnull rfl) (hnull' rfl)

theorem exists_of_isKnown (h : a.isKnown = true) : ∃ l n, a = known l n := by
  cases a with
  | known l n => exact ⟨l, n, rfl⟩
  | _ => cases h

theorem exists_of_isCapture (h : a.isCapture = true) : ∃ c, a = captures c := by
  cases a with
  | captures c => exact ⟨c, rfl⟩
  | _ => cases h

/-- Of references the locations of one of which are not known only the nullness is left. -/
theorem IsReference.merge_eq_unknownWith (ha : a.IsReference) (hb : b.IsReference)
    (h : (a.isKnown && b.isKnown) = false) : merge a b = unknownWith (a.nullness.merge b.nullness) := by
  have hna := ha.isDefinite
  have hnb := hb.isDefinite
  obtain ⟨-, hpa, hca⟩ := ha
  obtain ⟨-, hpb, hcb⟩ := hb
  cases a with
  | known l m =>
    cases b with
    | known k n => cases h
    | _ => cases m <;> simp_all [IsProper, isCapture, PointsTo.merge, unknownWith, nullness, Nullness.merge, Nullness.isDefinite]
  | _ =>
    cases b with
    | known k n =>
      cases n <;> simp_all [IsProper, isCapture, PointsTo.merge, unknownWith, nullness, Nullness.merge, Nullness.isDefinite]
    | _ => simp_all [IsProper, isCapture, PointsTo.merge, unknownWith, nullness, Nullness.merge]

/-- A merge of references is one. Its locations are known if those of both are, and its nullness is
the merge of theirs. -/
theorem IsReference.merge (ha : a.IsReference) (hb : b.IsReference) :
    (merge a b).IsReference ∧ (PointsTo.merge a b).isKnown = (a.isKnown && b.isKnown) ∧
      (PointsTo.merge a b).nullness = a.nullness.merge b.nullness := by
  cases h : a.isKnown && b.isKnown with
  | false =>
    rw [ha.merge_eq_unknownWith hb h]
    exact ⟨unknownWith_isReference _, isKnown_unknownWith _,
      nullness_unknownWith (isDefinite_merge ha.isDefinite hb.isDefinite)⟩
  | true =>
    rw [Bool.and_eq_true] at h
    obtain ⟨l, m, rfl⟩ := exists_of_isKnown h.1
    obtain ⟨k, n, rfl⟩ := exists_of_isKnown h.2
    rw [merge_known ha.valid.1]
    exact ⟨⟨union_valid ha.valid hb.valid, ⟨PointsTo.noConfusion, PointsTo.noConfusion⟩, rfl⟩, rfl, rfl⟩

theorem IsReference.merge_assoc (ha : a.IsReference) (hb : b.IsReference) (hc : c.IsReference) :
    PointsTo.merge (PointsTo.merge a b) c = PointsTo.merge a (PointsTo.merge b c) := by
  obtain ⟨hab, knownLeft, nullnessLeft⟩ := ha.merge hb
  obtain ⟨hbc, knownRight, nullnessRight⟩ := hb.merge hc
  cases h : a.isKnown && b.isKnown && c.isKnown with
  | false =>
    rw [hab.merge_eq_unknownWith hc (knownLeft ▸ h), ha.merge_eq_unknownWith hbc (by rw [knownRight, ← Bool.and_assoc, h]),
      nullnessLeft, nullnessRight, Nullness.merge_assoc]
  | true =>
    rw [Bool.and_eq_true, Bool.and_eq_true] at h
    obtain ⟨l, m, rfl⟩ := exists_of_isKnown h.1.1
    obtain ⟨k, n, rfl⟩ := exists_of_isKnown h.1.2
    obtain ⟨j, o, rfl⟩ := exists_of_isKnown h.2
    rw [merge_known ha.valid.1, merge_known hb.valid.1, merge_known ha.valid.1,
      merge_known (Ascending.union_ascending ha.valid.1 k), Ascending.union_assoc ha.valid.1, Nullness.merge_assoc]

/-! #### All values -/

/-- A value of which something is known is the address of captured storage or a reference. -/
theorem captures_or_isReference (ha : a.Valid) (proper : a.IsProper) :
    (∃ c, a = captures c ∧ Ascending id c ∧ c ≠ []) ∨ a.IsReference := by
  cases a with
  | captures c => exact .inl ⟨c, rfl, ha⟩
  | undefined => exact absurd rfl proper.1
  | invalid => exact absurd rfl proper.2
  | _ => exact .inr ⟨ha, proper, rfl⟩

theorem captures_isProper (c : List OperationId) : (captures c).IsProper :=
  ⟨PointsTo.noConfusion, PointsTo.noConfusion⟩

/-- What merging proper values does to their kinds. -/
theorem merge_proper (ha : a.Valid) (hb : b.Valid) (hpa : a.IsProper) (hpb : b.IsProper) :
    (merge a b).Valid ∧ (merge a b).IsProper ∧ (merge a b).isCapture = (a.isCapture && b.isCapture) := by
  by_cases h : a.isCapture = b.isCapture
  · rcases captures_or_isReference ha hpa with ⟨c, rfl, hc, hne⟩ | hra
    · rcases captures_or_isReference hb hpb with ⟨d, rfl, -, -⟩ | hrb
      · rw [merge_captures hc]
        refine ⟨⟨Ascending.union_ascending hc d, fun hnil => ?_⟩, captures_isProper _, rfl⟩
        obtain ⟨x, hx⟩ := List.exists_mem_of_ne_nil c hne
        have : x ∈ Ascending.union id c d := FinSet.mem_unionList.2 (.inl hx)
        rw [hnil] at this
        cases this
      · rw [hrb.notCapture] at h
        cases h
    · have hrb : b.IsReference := ⟨hb, hpb, h.symm.trans hra.notCapture⟩
      obtain ⟨hm, -, -⟩ := hra.merge hrb
      exact ⟨hm.valid, hm.proper, by rw [hm.notCapture, hra.notCapture, Bool.false_and]⟩
  · rw [merge_of_isCapture_ne hpa hpb h]
    exact ⟨trivial, unknownWith_isProper .maybeNull, by cases ha : a.isCapture <;> cases hb : b.isCapture <;> simp_all [isCapture]⟩

/-- Addresses and references in one merge: nothing is known any more. -/
theorem merge_merge_of_mixed (ha : a.Valid) (hb : b.Valid) (hpa : a.IsProper) (hpb : b.IsProper) (hpc : c.IsProper)
    (h : a.isCapture ≠ b.isCapture ∨ b.isCapture ≠ c.isCapture) : merge (merge a b) c = unknown := by
  by_cases hab : a.isCapture = b.isCapture
  · obtain ⟨-, hm, hcapture⟩ := merge_proper ha hb hpa hpb
    refine merge_of_isCapture_ne hm hpc ?_
    rw [hcapture, hab, Bool.and_self]
    exact h.resolve_left fun hne => hne hab
  · rw [merge_of_isCapture_ne hpa hpb hab, unknown_merge]

theorem merge_comm (ha : a.Valid) (hb : b.Valid) : merge a b = merge b a := by
  cases a with
  | known l m =>
    cases b with
    | known k n => rw [merge_known ha.1, merge_known hb.1, Ascending.union_comm ha.1 hb.1, Nullness.merge_comm]
    | _ => simp [merge, Nullness.merge_comm]
  | captures c =>
    cases b with
    | captures d => rw [merge_captures ha.1, merge_captures hb.1, Ascending.union_comm ha.1 hb.1]
    | _ => simp [merge]
  | _ => cases b <;> simp [merge, Nullness.merge_comm]

theorem merge_assoc_of_isProper (ha : a.Valid) (hb : b.Valid) (hc : c.Valid) (hpa : a.IsProper) (hpb : b.IsProper)
    (hpc : c.IsProper) : merge (merge a b) c = merge a (merge b c) := by
  by_cases h : a.isCapture ≠ b.isCapture ∨ b.isCapture ≠ c.isCapture
  · have hbc := (merge_proper hb hc hpb hpc).1
    rw [merge_merge_of_mixed ha hb hpa hpb hpc h, merge_comm ha hbc, merge_comm hb hc,
      merge_merge_of_mixed hc hb hpc hpb hpa (h.symm.imp Ne.symm Ne.symm)]
  · obtain ⟨hab, hbc⟩ : a.isCapture = b.isCapture ∧ b.isCapture = c.isCapture := by simpa using h
    rcases captures_or_isReference ha hpa with ⟨x, rfl, hx, -⟩ | hra
    · obtain ⟨y, rfl⟩ := exists_of_isCapture hab.symm
      obtain ⟨z, rfl⟩ := exists_of_isCapture hbc.symm
      rw [merge_captures hx, merge_captures hb.1, merge_captures hx, merge_captures (Ascending.union_ascending hx y),
        Ascending.union_assoc hx]
    · have hrb : b.IsReference := ⟨hb, hpb, hab.symm.trans hra.notCapture⟩
      exact hra.merge_assoc hrb ⟨hc, hpc, hbc.symm.trans hrb.notCapture⟩

theorem isProper_cases (a : PointsTo) : a = undefined ∨ a = invalid ∨ a.IsProper := by
  by_cases h : a = undefined
  · exact .inl h
  · by_cases h' : a = invalid
    · exact .inr (.inl h')
    · exact .inr (.inr ⟨h, h'⟩)

theorem merge_valid (ha : a.Valid) (hb : b.Valid) : (merge a b).Valid := by
  rcases isProper_cases a with rfl | rfl | hpa
  · rwa [undefined_merge]
  · by_cases h : b = undefined
    · rw [h, merge_undefined]
      trivial
    · rwa [invalid_merge h]
  · rcases isProper_cases b with rfl | rfl | hpb
    · rwa [merge_undefined]
    · rwa [merge_invalid hpa.1]
    · exact (merge_proper ha hb hpa hpb).1

theorem merge_ne_undefined (ha : a.Valid) (hb : b.Valid) (h : a ≠ undefined) : merge a b ≠ undefined := by
  rcases isProper_cases b with rfl | rfl | hpb
  · rwa [merge_undefined]
  · rwa [merge_invalid h]
  · rcases isProper_cases a with rfl | rfl | hpa
    · exact absurd rfl h
    · rw [invalid_merge hpb.1]
      exact hpb.1
    · exact (merge_proper ha hb hpa hpb).2.1.1

theorem merge_assoc (ha : a.Valid) (hb : b.Valid) (hc : c.Valid) : merge (merge a b) c = merge a (merge b c) := by
  rcases isProper_cases a with rfl | rfl | hpa
  · rw [undefined_merge, undefined_merge]
  · by_cases h : b = undefined
    · rw [h, merge_undefined, undefined_merge]
    · rw [invalid_merge h, invalid_merge (merge_ne_undefined hb hc h)]
  · rcases isProper_cases b with rfl | rfl | hpb
    · rw [merge_undefined, undefined_merge]
    · by_cases h : c = undefined
      · rw [h, merge_undefined, merge_undefined]
      · rw [merge_invalid hpa.1, invalid_merge h]
    · rcases isProper_cases c with rfl | rfl | hpc
      · rw [merge_undefined, merge_undefined]
      · rw [merge_invalid (merge_ne_undefined ha hb hpa.1), merge_invalid hpb.1]
      · exact merge_assoc_of_isProper ha hb hc hpa hpb hpc

theorem isSemilattice : IsSemilattice Valid merge top where
  closed := fun _ _ => merge_valid
  comm := fun _ _ => merge_comm
  assoc := fun _ _ _ => merge_assoc
  idem := fun a _ => merge_self a
  hasTop := trivial
  absorbs := fun a _ => ⟨unknown_merge a, merge_unknown a⟩

/-- A list with an element has one when it is sorted. -/
theorem ofList_ne_nil {α : Type} [Ord α] [Std.LawfulEqOrd α] {l : List α} (h : l.isEmpty = false) :
    Ascending.ofList id l ≠ [] := by
  obtain ⟨x, hx⟩ := List.exists_mem_of_ne_nil l (by simpa using h)
  intro hnil
  have : x ∈ Ascending.ofList id l := FinSet.mem_unionList.2 (.inr hx)
  rw [hnil] at this
  cases this

theorem ofLocations_valid {l : List Location} {n : Nullness} (h : ofLocations l n = .ok a) : a.Valid := by
  unfold ofLocations at h
  split at h
  · cases h
  · rename_i hne
    split at h
    · cases h
    · rename_i hn
      split at h
      · cases h
      · rename_i hnull
        obtain rfl := Except.ok.inj h
        refine ⟨Ascending.ofList_ascending id l, ofList_ne_nil (by simpa using hne), by simpa using hn, fun hn hmem => hnull ?_⟩
        have : Location.null ∈ l := (FinSet.mem_unionList.1 hmem).resolve_left List.not_mem_nil
        simp [hn, this]

theorem ofLocation_valid {l : Location} {mayBeNull : Bool} (h : ofLocation l mayBeNull = .ok a) : a.Valid := by
  unfold ofLocation at h
  split at h
  · cases h
  · rename_i hl
    obtain rfl := Except.ok.inj h
    refine ⟨Ascending.singleton l, by simp, by cases mayBeNull <;> rfl, fun _ hmem => hl ?_⟩
    rw [← List.mem_singleton.1 hmem]
    rfl

theorem ofCaptures_valid {c : List OperationId} (h : ofCaptures c = .ok a) : a.Valid := by
  unfold ofCaptures at h
  split at h
  · cases h
  · rename_i hne
    obtain rfl := Except.ok.inj h
    exact ⟨Ascending.ofList_ascending id c, ofList_ne_nil (by simpa using hne)⟩

theorem makeNonNull_valid (h : makeNonNull a = .ok b) (ha : a.Valid) : b.Valid := by
  unfold makeNonNull at h
  split at h
  · cases h
  · split at h
    · exact Except.ok.inj h ▸ ha
    · split at h
      · exact Except.ok.inj h ▸ trivial
      · exact ofLocations_valid h

theorem makeNull_valid (h : makeNull a = .ok b) (ha : a.Valid) : b.Valid := by
  unfold makeNull at h
  split at h
  · cases h
  · split at h
    · exact Except.ok.inj h ▸ ha
    · split at h
      · exact Except.ok.inj h ▸ trivial
      · exact ofLocations_valid h

theorem makeMayBeNull_valid (h : makeMayBeNull a = .ok b) (ha : a.Valid) : b.Valid := by
  unfold makeMayBeNull at h
  split at h
  · cases h
  · split at h
    · cases h
    · split at h
      · exact Except.ok.inj h ▸ ha
      · split at h
        · exact Except.ok.inj h ▸ trivial
        · exact ofLocations_valid h

theorem Obtained.valid (h : a.Obtained) : a.Valid := by
  induction h with
  | undefined | invalid => trivial
  | unknownWith n => exact (unknownWith_isReference n).valid
  | noLocation => exact ⟨Ascending.singleton _, by simp, rfl, by simp⟩
  | nullLocation => exact ⟨Ascending.singleton _, by simp, rfl, by simp⟩
  | location h => exact ofLocation_valid h
  | locations h => exact ofLocations_valid h
  | captures h => exact ofCaptures_valid h
  | nonNull _ h ih => exact makeNonNull_valid h ih
  | null _ h ih => exact makeNull_valid h ih
  | mayBeNull _ h ih => exact makeMayBeNull_valid h ih
  | merged _ _ ha hb => exact merge_valid ha hb

end PointsTo

/-! ### Values of any kind -/

theorem taint_isSemilattice : IsSemilattice (fun _ => True) Taint.merge Taint.top where
  closed _ _ _ _ := trivial
  comm a b _ _ := Taint.merge_comm a b
  assoc a b c _ _ _ := Taint.merge_assoc a b c
  idem a _ := Taint.merge_self a
  hasTop := trivial
  absorbs a _ := by cases a <;> exact ⟨rfl, rfl⟩

theorem missingContent_isSmall (e : Entity) : (Domain.missingContent e).IsSmall := by
  cases e <;> exact Nat.zero_le _

/-! ### The laws -/

/-- On everything that constructors, changes and merges make of points-to values, classes of copies and
literal contents, merging is commutative, associative and idempotent, and the top value absorbs; and the
comparison that merging induces is a partial order in which merges are least upper bounds. -/
theorem merge_laws :
    (IsSemilattice PointsTo.Obtained PointsTo.merge PointsTo.top ∧ IsJoinOrder PointsTo.Obtained PointsTo.merge) ∧
      (IsSemilattice CopyClass.Obtained CopyClass.merge CopyClass.top ∧
        IsJoinOrder CopyClass.Obtained CopyClass.merge) ∧
      (IsSemilattice Content.Obtained Content.merge Content.top ∧ IsJoinOrder Content.Obtained Content.merge) := by
  have pointsTo : IsSemilattice PointsTo.Obtained PointsTo.merge PointsTo.top :=
    PointsTo.isSemilattice.of_subset (fun _ => PointsTo.Obtained.valid) (fun _ _ => .merged) (.unknownWith .maybeNull)
  have copies : IsSemilattice CopyClass.Obtained CopyClass.merge CopyClass.top :=
    CopyClass.isSemilattice.of_subset (fun _ => CopyClass.Obtained.valid) (fun _ _ => .merged) .unknown
  have contents : IsSemilattice Content.Obtained Content.merge Content.top :=
    Content.isSemilattice.of_subset (fun _ => Content.Obtained.isSmall) (fun _ _ => .merged) .any
  exact ⟨⟨pointsTo, pointsTo.isJoinOrder⟩, ⟨copies, copies.isJoinOrder⟩, ⟨contents, contents.isJoinOrder⟩⟩

end Dataflow
