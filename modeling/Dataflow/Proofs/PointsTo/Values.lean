import Dataflow.Proofs.Lattice.Absorption
import Dataflow.Proofs.Variables.Program

/-!
# What points-to values allow

For the points-to analysis a concrete value is null, plain, or an object. An object carries a
tag: the operation that created it, or the parameter that it was passed for. A points-to value
allows null if it may be null. It allows anything else if it may be not null and has the
location, unless it says nothing about where it points.

Undefined values allow nothing, so they may be dropped when they are merged. Nor do addresses
of captured storage allow any of these values.

## What is proved

Merging allows what either value allows (`merge_allows`), and so does widening, which gives up
locations but keeps the nullness.
-/

namespace Dataflow

/-- What a variable may hold: nothing, a value outside of the heap, or an object. -/
inductive Reference where
  /-- The null reference. -/
  | null
  /-- A value that is no reference. -/
  | plain
  /-- The object that an operation created. -/
  | created (operation : OperationId)
  /-- The object that was passed for a parameter. -/
  | passed (parameter : Symbol)
  deriving DecidableEq

/-- Creations and operators that join texts yield an object with the operation's tag, and other
operators plain values. A conversion keeps a reference, and a parameter that holds references
starts as null or as an object of its own. Calls yield nothing. -/
def Meaning.ofReferences : Meaning Reference where
  literal := fun l v => v = if l = .null then .null else .plain
  binary := fun op operator _ _ w =>
    w = if (operator = .concatenate || operator = .add) && op.isReferenceType then .created op.id else .plain
  conversion := fun op v w => w = if op.isReferenceType then v else .plain
  creation := fun op _ w => w = .created op.id
  array := fun op w => w = .created op.id
  call := fun _ _ => False
  parameter := fun x v => if TypeRef.holdsReference x.type then v = .null ∨ v = .passed x else v = .plain

namespace PointsTo

/-- The location stands for the value, in a method that is called from some call sites. -/
def Marks (owner : Symbol) (callSites : List OperationId) (l : Location) : Reference → Prop
  | .null => False
  | .plain => l = .noLocation
  | .created op => ∃ type, l = .allocation op owner type callSites
  | .passed x => l = .entity (.localVar x owner)

/-- The points-to value allows the concrete one. -/
def Allows (owner : Symbol) (callSites : List OperationId) (a : PointsTo) (v : Reference) : Prop :=
  if v = .null then a.nullness = .null ∨ a.nullness = .maybeNull
  else (a.nullness = .notNull ∨ a.nullness = .maybeNull) ∧
    (a.isUnknown = true ∨ ∃ l ∈ a.locations, Marks owner callSites l v)

variable {owner : Symbol} {callSites : List OperationId} {a b : PointsTo} {v : Reference}

/-- A value that allows null may be null. -/
theorem Allows.nullness_of_null (h : a.Allows owner callSites .null) :
    a.nullness = .null ∨ a.nullness = .maybeNull := by
  unfold Allows at h
  rwa [if_pos rfl] at h

/-- A value that allows something else may be not null, and has a location of it. -/
theorem Allows.located (h : a.Allows owner callSites v) (hv : v ≠ .null) :
    (a.nullness = .notNull ∨ a.nullness = .maybeNull) ∧
      (a.isUnknown = true ∨ ∃ l ∈ a.locations, Marks owner callSites l v) := by
  unfold Allows at h
  rwa [if_neg hv] at h

/-- Only the nullness and the locations matter. -/
theorem Allows.mono (h : a.Allows owner callSites v)
    (hnull : a.nullness = .null → b.nullness = .null ∨ b.nullness = .maybeNull)
    (hnotNull : a.nullness = .notNull → b.nullness = .notNull ∨ b.nullness = .maybeNull)
    (hmaybe : a.nullness = .maybeNull → b.nullness = .maybeNull) (hunknown : a.isUnknown = true → b.isUnknown = true)
    (hlocations : ∀ l ∈ a.locations, b.isUnknown = true ∨ l ∈ b.locations) : b.Allows owner callSites v := by
  unfold Allows at h ⊢
  split
  · rw [if_pos ‹v = .null›] at h
    rcases h with h | h
    · exact hnull h
    · exact .inr (hmaybe h)
  · rw [if_neg ‹¬ v = .null›] at h
    obtain ⟨hnullness, hwhere⟩ := h
    constructor
    · rcases hnullness with h | h
      · exact hnotNull h
      · exact .inr (hmaybe h)
    · rcases hwhere with h | ⟨l, hl, hmarks⟩
      · exact .inl (hunknown h)
      · rcases hlocations l hl with h | h
        · exact .inl h
        · exact .inr ⟨l, h, hmarks⟩

/-! ### Merging and widening -/

/-- Locations are united. -/
theorem known_union_allows {l k : List Location} {m n : Nullness}
    (h : (known l m).Allows owner callSites v ∨ (known k n).Allows owner callSites v) :
    (known (Ascending.union id l k) (m.merge n)).Allows owner callSites v := by
  rcases h with h | h
  · refine h.mono ?_ ?_ ?_ (fun hu => by cases hu) fun x hx => .inr (FinSet.mem_unionList.2 (.inl hx))
    all_goals cases m <;> cases n <;> simp [nullness, Nullness.merge]
  · refine h.mono ?_ ?_ ?_ (fun hu => by cases hu) fun x hx => .inr (FinSet.mem_unionList.2 (.inr hx))
    all_goals cases m <;> cases n <;> simp [nullness, Nullness.merge]

/-- Unless both values have locations, one of them is dropped, or the result says nothing about
where it points; then only the nullness counts. -/
theorem merge_allows (h : a.Allows owner callSites v ∨ b.Allows owner callSites v) :
    (merge a b).Allows owner callSites v := by
  by_cases hab : a = b
  · subst hab
    rw [merge_self]
    exact h.elim id id
  · cases a with
    | known l m =>
      cases b with
      | known k n =>
        rw [merge_of_ne_known hab]
        exact known_union_allows h
      | _ =>
        cases m <;> by_cases hv : v = .null <;>
          simp_all [Allows, merge, nullness, isUnknown, locations, unknownWith, Nullness.merge]
    | captures c =>
      cases b <;> by_cases hv : v = .null <;> simp_all [Allows, merge, nullness, isUnknown, locations]
    | _ =>
      cases b with
      | known k n =>
        cases n <;> by_cases hv : v = .null <;>
          simp_all [Allows, merge, nullness, isUnknown, locations, unknownWith, Nullness.merge]
      | _ =>
        by_cases hv : v = .null <;>
          simp_all [Allows, merge, nullness, isUnknown, locations, unknownWith, Nullness.merge]

theorem unknownWith_allows (h : a.Allows owner callSites v) :
    (unknownWith a.nullness).Allows owner callSites v := by
  have unknown : ∀ n, (unknownWith n).isUnknown = true := by
    intro n
    cases n <;> rfl
  refine h.mono ?_ ?_ ?_ (fun _ => unknown _) fun _ _ => .inl (unknown _)
  · intro hn
    rw [hn]
    exact .inl rfl
  · intro hn
    rw [hn]
    exact .inl rfl
  · intro hn
    rw [hn]
    rfl

theorem widenValue_allows (h : b.Allows owner callSites v) :
    (State.widenValue Domain.pointsTo a b).Allows owner callSites v := by
  have merged : (merge a b).Allows owner callSites v := merge_allows (.inr h)
  rcases widenValue_eq a b with ⟨heq, hold⟩ | heq
  · rw [heq, ← hold]
    exact merged
  · rw [heq]
    exact unknownWith_allows merged

/-! ### Constructors -/

theorem nullLocation_allows : nullLocation.Allows owner callSites .null := by
  simp [Allows, nullLocation, nullness]

theorem noLocation_allows : noLocation.Allows owner callSites .plain := by
  simp [Allows, noLocation, nullness, locations, Marks]

theorem eq_known_of_ofLocation {l : Location} {mayBeNull : Bool} (h : ofLocation l mayBeNull = .ok a) :
    a = known [l] (if mayBeNull then .maybeNull else .notNull) := by
  unfold ofLocation at h
  split at h
  · cases h
  · exact (Except.ok.inj h).symm

/-- One location that stands for the value. -/
theorem ofLocation_allows {l : Location} {mayBeNull : Bool} (h : ofLocation l mayBeNull = .ok a)
    (hmarks : Marks owner callSites l v) : a.Allows owner callSites v := by
  obtain rfl := eq_known_of_ofLocation h
  unfold Allows
  split
  · rw [‹v = .null›] at hmarks
    exact absurd hmarks not_false
  · refine ⟨?_, .inr ⟨l, List.mem_singleton.2 rfl, hmarks⟩⟩
    cases mayBeNull
    · exact .inl rfl
    · exact .inr rfl

theorem ofLocation_allows_null {l : Location} (h : ofLocation l true = .ok a) : a.Allows owner callSites .null := by
  obtain rfl := eq_known_of_ofLocation h
  exact .inr rfl

end PointsTo

end Dataflow
