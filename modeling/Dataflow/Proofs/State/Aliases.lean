import Dataflow.Analysis.Contents
import Dataflow.Analysis.PointsTo
import Dataflow.Analysis.Taint
import Dataflow.Proofs.Lattice.Laws
import Dataflow.Proofs.State.Order

/-!
# What writes show and what they forget

A write lets every mentioned alias of an entity gain the value. An alias that is not mentioned keeps its default. The
entity itself forgets what it held unless its owner is not known, be it a field of one object or of several.

## The notions

* `Analysis.Shows`: after a write to one entity another one holds at least the value.
* `Analysis.Keeps`: after a write an entity holds at least what it held.
* `PointsTo.IsInitial`: a value that an entity shows without any write.
* `Entity.IsShared`: a field or an element of a known owner that nevertheless stands for several cells.

## What is proved

When a possible alias shows a write, for the analyses of references, literal content and taint (`Analysis.shows_iff`);
and when an entity keeps what it held (`Analysis.keeps_iff`).
-/

namespace Dataflow

/-! ### States -/

namespace State

variable {V : Type} {P : V → Prop} {D : Domain V} {s : State V} {e a : Entity} {v : V}

/-- An alias of an entity is the entity itself, or a field or an element. -/
theorem isMethodLocal_of_mayAlias (halias : e.mayAlias a = true) (hne : a ≠ e) : a.isMethodLocal = false := by
  cases hlocal : a.isMethodLocal with
  | false => rfl
  | true =>
    rw [Entity.mayAlias_of_isMethodLocal (.inr hlocal) hne.symm] at halias
    cases halias

/-- A mentioned alias gains what is written, and one that is not mentioned has its default. -/
theorem merge_valueOr_write_iff (law : IsSemilattice P D.merge D.top) (missing : ∀ e, P (D.missing e))
    (hs : s.Each P) (hv : P v) (halias : e.mayAlias a = true) :
    D.merge v (valueOr D (write D e v s) a) = valueOr D (write D e v s) a ↔
      a = e ∨ (s.find? a).isSome = true ∨ D.merge v (D.missing a) = D.missing a := by
  have gained {u : V} (hu : P u) : D.merge v (D.merge u v) = D.merge u v := by
    rw [law.comm u v hu hv, law.merge_left hv hu]
  have held := find?_write D e v s a
  by_cases hae : a = e
  · rw [if_pos hae] at held
    rw [valueOr_of_find? D held]
    refine iff_of_true ?_ (.inl hae)
    split
    · exact gained (hs.valueOr missing e)
    · exact law.idem v hv
  · rw [if_neg hae, if_pos halias] at held
    cases hsa : s.find? a with
    | none =>
      rw [hsa] at held
      rw [valueOr_of_not_mentioned D held]
      simp [hae]
    | some u =>
      rw [hsa] at held
      rw [valueOr_of_find? D held]
      exact iff_of_true (gained (hs a u hsa)) (.inr (.inl rfl))

/-- A write forgets what an entity of known objects held. -/
theorem merge_valueOr_write_self_iff (law : IsSemilattice P D.merge D.top) (missing : ∀ e, P (D.missing e))
    (hs : s.Each P) (hv : P v) :
    D.merge (valueOr D s e) (valueOr D (write D e v s) e) = valueOr D (write D e v s) e ↔
      e.hasUnknownOwner = true ∨ D.merge (valueOr D s e) v = v := by
  have held := find?_write D e v s e
  rw [if_pos rfl] at held
  rw [valueOr_of_find? D held]
  cases e.hasUnknownOwner with
  | false => simp
  | true => simp [law.merge_left (hs.valueOr missing e) hv]

end State

/-! ### Entities -/

/-- A field or an element that stands for more than one cell, although its owner is known: the owner is one of several
objects, or it has no location. -/
def Entity.IsShared (e : Entity) : Prop :=
  e.isMethodLocal = false ∧ e.isStatic = false ∧ e.hasUnknownOwner = false ∧
    (2 ≤ e.owner.heapLocations.length ∨ .noLocation ∈ e.owner.locations)

instance (e : Entity) : Decidable e.IsShared :=
  inferInstanceAs (Decidable (_ ∧ _ ∧ _ ∧ (_ ∨ _)))

/-! ### Defaults -/

/-- What an entity may hold that nothing was stored into, or less. -/
def PointsTo.IsInitial (a : Entity) (v : PointsTo) : Prop :=
  v = .undefined ∨ v = .invalid ∨
    if a.isReference = true then a.hasUnknownOwner = true ∨ ∃ n, v = .known [.entity a] n else v = .noLocation

namespace PointsTo

/-- Known locations that add nothing to a single one. -/
theorem merge_known_singleton_iff {l : List Location} {m n : Nullness} {x : Location} (h : (known l m).Valid) :
    merge (known l m) (known [x] n) = known [x] n ↔ l = [x] ∧ m.merge n = n := by
  rw [merge_known h.1, known.injEq]
  refine and_congr_left fun _ => ?_
  constructor
  · intro same
    refine Ascending.ext_of_mem h.1 (Ascending.singleton x) fun y => ?_
    have sub : ∀ z ∈ l, z = x := fun z hz =>
      List.mem_singleton.1 (same ▸ (FinSet.mem_unionList.2 (.inl hz) : z ∈ Ascending.union id l [x]))
    rw [List.mem_singleton]
    refine ⟨sub y, ?_⟩
    rintro rfl
    obtain ⟨z, hz⟩ := List.exists_mem_of_ne_nil l h.2.1
    exact sub z hz ▸ hz
  · rintro rfl
    exact Ascending.union_self (Ascending.singleton x)

/-- The values that the default of a field or an element covers. -/
theorem merge_missing_iff {a : Entity} {v : PointsTo} (hv : v.Valid) (hlocal : a.isMethodLocal = false) :
    merge v (Domain.missingPointsTo a) = Domain.missingPointsTo a ↔ IsInitial a v := by
  have default : Domain.missingPointsTo a =
      if a.isReference = true then if a.hasUnknownOwner = true then .unknown else .known [.entity a] .maybeNull
      else .noLocation := by
    unfold Domain.missingPointsTo
    cases a <;> cases href : Entity.isReference _ <;> simp_all [Entity.isMethodLocal]
  rw [default, IsInitial]
  split
  · split
    · simp [*]
    · rename_i hknown
      cases v with
      | known l m =>
        rw [merge_known_singleton_iff hv]
        have definite := hv.2.2.1
        cases m <;> simp_all [Nullness.merge, Nullness.isDefinite]
      | _ => simp [merge, hknown, unknownWith, nullness, Nullness.merge]
  · cases v with
    | known l m =>
      rw [noLocation, merge_known_singleton_iff hv]
      have definite := hv.2.2.1
      cases m <;> simp_all [Nullness.merge, Nullness.isDefinite]
    | _ => simp [merge, noLocation, unknownWith, nullness, Nullness.merge]

end PointsTo

/-- A field or an element may hold any content as long as nothing was stored into it. -/
theorem Content.merge_missing (v : Content) {a : Entity} (hlocal : a.isMethodLocal = false) :
    Content.merge v (Domain.missingContent a) = Domain.missingContent a := by
  have default : Domain.missingContent a = Content.any := by
    cases a <;> first | rfl | cases hlocal
  rw [default, Content.merge_any]

theorem Taint.merge_notTainted_iff {v : Taint} : v.merge .notTainted = .notTainted ↔ v = .notTainted := by
  cases v <;> decide

/-! ### Analyses -/

namespace Analysis

section Notions

variable {V : Type} (A : Analysis V)

/-- After a write to an entity another one holds at least the value. -/
def Shows (s : State V) (e : Entity) (v : V) (a : Entity) : Prop :=
  ∃ t, A.write e v s = .ok t ∧ A.domain.merge v (State.valueOr A.domain t a) = State.valueOr A.domain t a

/-- After a write to an entity it holds at least what it held before. -/
def Keeps (s : State V) (e : Entity) (v : V) : Prop :=
  ∃ t, A.write e v s = .ok t ∧
    A.domain.merge (State.valueOr A.domain s e) (State.valueOr A.domain t e) = State.valueOr A.domain t e

end Notions

variable {V : Type} {A : Analysis V} {s : State V} {e a : Entity} {v : V}

/-- What an analysis without writes of its own shows. -/
theorem shows_write_iff (plain : A.write = fun e v s => .ok (State.write A.domain e v s)) :
    A.Shows s e v a ↔ A.domain.merge v (State.valueOr A.domain (State.write A.domain e v s) a) =
      State.valueOr A.domain (State.write A.domain e v s) a := by
  simp [Shows, plain]

theorem keeps_write_iff (plain : A.write = fun e v s => .ok (State.write A.domain e v s)) :
    A.Keeps s e v ↔ A.domain.merge (State.valueOr A.domain s e) (State.valueOr A.domain (State.write A.domain e v s) e) =
      State.valueOr A.domain (State.write A.domain e v s) e := by
  simp [Keeps, plain]

/-- **When an alias shows a write.** Every possible alias shows a write of literal content. In the other two analyses
an alias that no state mentions shows a write only as far as its default covers the value: of references that of an
alias with an unknown owner does, and that of another one only if the value names nothing but what the alias held in
the beginning; of taint it does so only for data that is not tainted. -/
theorem shows_iff (rules : TaintRules) (e a : Entity) (halias : e.mayAlias a = true) :
    (∀ s v, s.Each PointsTo.Valid → v.Valid →
      (pointsTo.Shows s e v a ↔ a = e ∨ (s.find? a).isSome = true ∨ PointsTo.IsInitial a v)) ∧
    (∀ s v, s.Each Content.IsSmall → v.IsSmall → contents.Shows s e v a) ∧
    (∀ s v, (taint rules).Shows s e v a ↔ a = e ∨ (s.find? a).isSome = true ∨ v = .notTainted) := by
  refine ⟨fun s v hs hv => ?_, fun s v hs hv => ?_, fun s v => ?_⟩
  · rw [shows_write_iff rfl]
    refine (State.merge_valueOr_write_iff PointsTo.isSemilattice PointsTo.missingPointsTo_valid hs hv halias).trans ?_
    by_cases hae : a = e
    · simp [hae]
    · exact or_congr_right (or_congr_right
        (PointsTo.merge_missing_iff hv (State.isMethodLocal_of_mayAlias halias hae)))
  · rw [shows_write_iff rfl]
    refine (State.merge_valueOr_write_iff Content.isSemilattice missingContent_isSmall hs hv halias).2 ?_
    by_cases hae : a = e
    · exact .inl hae
    · exact .inr (.inr (Content.merge_missing v (State.isMethodLocal_of_mayAlias halias hae)))
  · rw [shows_write_iff rfl]
    refine (State.merge_valueOr_write_iff taint_isSemilattice (fun _ => trivial) (fun _ _ _ => trivial) trivial
      halias).trans ?_
    exact or_congr_right (or_congr_right Taint.merge_notTainted_iff)

namespace Boxes

/-- A field of every box. -/
def content : Symbol := ⟨"content", .field, some (.value "int"), some "Box", .value, 0⟩

/-- The box that an operation creates. -/
def box (n : UInt32) : Location := .allocation ⟨n⟩ (.method "C" "main" none) (some (.reference "Box")) []

/-- The field of the first box. -/
def first : Entity := .member content (.known [box 0] .notNull)

/-- The field of either box. -/
def either : Entity := .member content (.known [box 0, box 1] .notNull)

/-- The field of a box that is kept where it is and not on the heap. -/
def unboxed : Entity := .member content .noLocation

/-- The field of any box. -/
def any : Entity := .member content .unknown

/-- No rules. -/
def rules : TaintRules := .ofConfig (KnownTypes.ofList []) .empty

end Boxes

open Boxes in
/-- A write to the field of either box shows in the field of the first one if that is mentioned. -/
theorem shows_iff_mentioned : either.mayAlias first = true ∧
    (taint rules).Shows (State.empty.insert first .notTainted) either .tainted first := by
  have halias : either.mayAlias first = true := by decide +kernel
  obtain ⟨-, -, taint⟩ := shows_iff rules either first halias
  exact ⟨halias, (taint _ _).2 (.inr (.inl (by decide +kernel)))⟩

open Boxes in
/-- Otherwise the field of the first box is still not tainted. -/
theorem not_shows_either : either.mayAlias first = true ∧ ¬(taint rules).Shows State.empty either .tainted first := by
  refine ⟨by decide +kernel, ?_⟩
  rintro ⟨t, ht, shown⟩
  cases ht
  exact absurd shown (by decide +kernel)

/-- **When an entity keeps what it held.** A write to a field or an element of unknown objects forgets nothing. A write
to any other entity forgets what the new value does not cover, also if the entity belongs to several known objects or
to a receiver that has no location. -/
theorem keeps_iff (rules : TaintRules) (e : Entity) :
    (∀ s v, s.Each PointsTo.Valid → v.Valid →
      (pointsTo.Keeps s e v ↔ e.hasUnknownOwner = true ∨ PointsTo.merge (State.valueOr Domain.pointsTo s e) v = v)) ∧
    (∀ s v, s.Each Content.IsSmall → v.IsSmall →
      (contents.Keeps s e v ↔ e.hasUnknownOwner = true ∨ Content.merge (State.valueOr Domain.contents s e) v = v)) ∧
    (∀ s v, (taint rules).Keeps s e v ↔
      e.hasUnknownOwner = true ∨ Taint.merge (State.valueOr Domain.taint s e) v = v) := by
  refine ⟨fun s v hs hv => ?_, fun s v hs hv => ?_, fun s v => ?_⟩
  · rw [keeps_write_iff rfl]
    exact State.merge_valueOr_write_self_iff PointsTo.isSemilattice PointsTo.missingPointsTo_valid hs hv
  · rw [keeps_write_iff rfl]
    exact State.merge_valueOr_write_self_iff Content.isSemilattice missingContent_isSmall hs hv
  · rw [keeps_write_iff rfl]
    exact State.merge_valueOr_write_self_iff taint_isSemilattice (fun _ => trivial) (fun _ _ _ => trivial) trivial

open Boxes in
/-- The field of any box keeps what it held. -/
theorem keeps_iff_any : (taint rules).Keeps (State.empty.insert any .tainted) any .notTainted := by
  obtain ⟨-, -, taint⟩ := keeps_iff rules any
  exact (taint _ _).2 (.inl rfl)

open Boxes in
/-- The field of either box, and that of a box without a location, forget what they held. -/
theorem not_keeps_either : either.IsShared ∧ unboxed.IsShared ∧
    ¬(taint rules).Keeps (State.empty.insert either .tainted) either .notTainted ∧
    ¬(taint rules).Keeps (State.empty.insert unboxed .tainted) unboxed .notTainted := by
  refine ⟨by decide +kernel, by decide +kernel, ?_, ?_⟩
  all_goals
    rintro ⟨t, ht, kept⟩
    cases ht
    exact absurd kept (by decide +kernel)

end Analysis

end Dataflow
