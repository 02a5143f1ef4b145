import Dataflow.Proofs.Accord.Solver
import Dataflow.Proofs.Lattice.Laws
import Dataflow.Proofs.State.Writes

/-!
# Joins through constructors

A merge builds its result outright. Here the same joins are written with the constructors, which ask
for something: known locations must not be empty, their nullness must say something, a value that is
not null must not contain the null location, and so on. From the joins of values follow those of states,
up to the state that a block is visited in (`Constructors.joining`).

## What is proved

On valid values nothing that a constructor asks for is missing, and what is built is what a merge
builds (`Constructors.Upholds`). A merge of copy classes or of contents asks for nothing that it has
not checked itself, so there all values are valid. The joins of states follow
(`Constructors.Upholds.nextEntry`).
-/

namespace Dataflow

variable {V : Type}

/-- How values are joined and made by constructors that may be used wrongly. -/
structure Constructors (V : Type) where
  /-- What holds if either value may hold. -/
  merge : V → V → Checked V
  /-- Merging in a loop that does not settle. -/
  widen : V → V → Checked V
  /-- The value of an entity that a state does not mention. -/
  missing : Entity → Checked V

/-- The constructors are used rightly on valid values, and make what the domain makes. -/
structure Constructors.Upholds (C : Constructors V) (D : Domain V) (valid : V → Prop) : Prop where
  /-- Merging. -/
  merge : ∀ a b, valid a → valid b → C.merge a b = .ok (D.merge a b) ∧ valid (D.merge a b)
  /-- Widening. -/
  widen : ∀ a b, valid a → valid b → C.widen a b = .ok (D.widen a b) ∧ valid (D.widen a b)
  /-- Values of entities that are not mentioned. -/
  missing : ∀ e, C.missing e = .ok (D.missing e) ∧ valid (D.missing e)

/-! ### Points-to values -/

namespace PointsTo

variable {a b : PointsTo}

/-- What holds if either value may hold. -/
def mergeChecked (a b : PointsTo) : Checked PointsTo :=
  if a = b then .ok a
  else
    match a, b with
    | undefined, b => .ok b
    | a, undefined => .ok a
    | invalid, b => .ok b
    | a, invalid => .ok a
    | unknown, _ => .ok unknown
    | _, unknown => .ok unknown
    | captures c, captures d => ofCaptures (Ascending.union id c d)
    | captures _, _ => .ok unknown
    | _, captures _ => .ok unknown
    | known l m, known k n => ofLocations (Ascending.union id l k) (m.merge n)
    | a, b => .ok (unknownWith (a.nullness.merge b.nullness))

/-- Merges, and gives up all locations if that adds something to the first value. -/
def widenChecked (previous next : PointsTo) : Checked PointsTo := do
  let merged ← mergeChecked previous next
  if merged = previous then return merged else return unknownWith merged.nullness

/-- The value of an entity that nothing was stored into. -/
def missingChecked (e : Entity) : Checked PointsTo := do
  if !e.isReference then return noLocation
  match e with
  | .localVar .. | .temporary .. => return undefined
  | .receiver _ => ofLocation (← Location.ofEntity e) false
  | .member .. | .element .. =>
    if e.hasUnknownOwner then return unknown else ofLocation (← Location.ofEntity e) true

/-- A list in order is sorted as it is. -/
theorem ofList_eq_self {α : Type} [Ord α] [Std.TransOrd α] [Std.LawfulEqOrd α] {l : List α} (h : Ascending id l) :
    Ascending.ofList id l = l :=
  Ascending.ext_of_mem (Ascending.ofList_ascending id l) h fun x => by
    rw [Ascending.ofList, FinSet.mem_unionList]
    simp

theorem ofCaptures_of_valid {c : List OperationId} (h : (captures c).Valid) : ofCaptures c = .ok (captures c) := by
  obtain ⟨ascending, hne⟩ := h
  unfold ofCaptures
  rw [if_neg (by simpa using hne), ofList_eq_self ascending]

theorem ofLocations_of_valid {l : List Location} {n : Nullness} (h : (known l n).Valid) :
    ofLocations l n = .ok (known l n) := by
  obtain ⟨ascending, hne, definite, hnull⟩ := h
  unfold ofLocations
  rw [if_neg (by simpa using hne), if_neg (by simp [definite]), if_neg (by simpa using hnull), ofList_eq_self ascending]

/-- Only two addresses, or two references with known locations, are joined by a constructor. -/
theorem mergeChecked_eq (ha : a.Valid) (hb : b.Valid) : mergeChecked a b = .ok (merge a b) := by
  have valid := merge_valid ha hb
  unfold merge at valid ⊢
  unfold mergeChecked
  split
  · rfl
  · rename_i hne
    rw [if_neg hne] at valid
    cases a with
    | captures c =>
      cases b with
      | captures d => exact ofCaptures_of_valid valid
      | _ => rfl
    | known l m =>
      cases b with
      | known k n => exact ofLocations_of_valid valid
      | _ => rfl
    | _ => cases b <;> rfl

theorem widenChecked_eq (ha : a.Valid) (hb : b.Valid) : widenChecked a b = .ok (widen a b) := by
  unfold widenChecked widen
  rw [mergeChecked_eq ha hb]
  dsimp only [bind, Except.bind]
  split
  · rfl
  · rfl

theorem widen_valid (ha : a.Valid) (hb : b.Valid) : (widen a b).Valid := by
  unfold widen
  dsimp only
  split
  · exact merge_valid ha hb
  · exact (unknownWith_isReference _).valid

/-- The object that an entity held in the beginning is valid, maybe null or not. -/
theorem known_entity_valid (e : Entity) (n : Nullness) (h : n.isDefinite = true) : (known [.entity e] n).Valid :=
  ⟨Ascending.singleton _, by simp, h, fun _ => by simp⟩

theorem missingPointsTo_valid (e : Entity) : (Domain.missingPointsTo e).Valid := by
  unfold Domain.missingPointsTo
  split
  · exact ⟨Ascending.singleton _, by simp, rfl, fun _ => by simp⟩
  · split
    · trivial
    · trivial
    · exact known_entity_valid _ _ rfl
    · split
      · trivial
      · exact known_entity_valid _ _ rfl
    · split
      · trivial
      · exact known_entity_valid _ _ rfl

theorem ofEntity_of_not_hasUnknownOwner {e : Entity} (h : e.hasUnknownOwner = false) :
    Location.ofEntity e = .ok (.entity e) := by
  rw [Location.ofEntity, if_neg (by simp [h])]

/-- Only entities that name one cell are asked for the objects that they held. -/
theorem missingChecked_eq (e : Entity) : missingChecked e = .ok (Domain.missingPointsTo e) := by
  unfold missingChecked Domain.missingPointsTo
  split
  · rfl
  · cases e with
    | localVar _ _ => rfl
    | temporary _ _ _ => rfl
    | receiver _ => rfl
    | _ =>
      dsimp only
      split
      · rfl
      · rw [ofEntity_of_not_hasUnknownOwner (Bool.eq_false_iff.2 ‹_›)]
        rfl

end PointsTo

/-- The constructors of points-to values. -/
def Constructors.pointsTo : Constructors PointsTo :=
  ⟨PointsTo.mergeChecked, PointsTo.widenChecked, PointsTo.missingChecked⟩

theorem Constructors.pointsTo_upholds : Constructors.pointsTo.Upholds Domain.pointsTo PointsTo.Valid where
  merge := fun _ _ ha hb => ⟨PointsTo.mergeChecked_eq ha hb, PointsTo.merge_valid ha hb⟩
  widen := fun _ _ ha hb => ⟨PointsTo.widenChecked_eq ha hb, PointsTo.widen_valid ha hb⟩
  missing := fun e => ⟨PointsTo.missingChecked_eq e, PointsTo.missingPointsTo_valid e⟩

/-! ### Copy classes -/

/-- What holds if either value may hold. -/
def CopyClass.mergeChecked (a b : CopyClass) : Checked CopyClass :=
  if a = b then .ok a
  else
    match a, b with
    | notApplicable, b => .ok b
    | a, notApplicable => .ok a
    | invalid, b => .ok b
    | a, invalid => .ok a
    | unknown, _ => .ok unknown
    | _, unknown => .ok unknown
    | known s, known t =>
      let common := s.inter t
      if common.isEmpty then .ok unknown else ofMembers common

theorem CopyClass.mergeChecked_eq (a b : CopyClass) : mergeChecked a b = .ok (merge a b) := by
  unfold mergeChecked merge
  split
  · rfl
  · cases a with
    | known s =>
      cases b with
      | known t =>
        dsimp only
        split
        · rfl
        · rename_i hne
          rw [ofMembers, if_neg hne]
      | _ => rfl
    | _ => cases b <;> rfl

/-- The constructors of copy classes. -/
def Constructors.copies : Constructors CopyClass :=
  ⟨CopyClass.mergeChecked, CopyClass.mergeChecked, fun e => CopyClass.ofMembers (FinSet.singleton e)⟩

theorem Constructors.copies_upholds : Constructors.copies.Upholds Domain.copies fun _ => True where
  merge := fun a b _ _ => ⟨CopyClass.mergeChecked_eq a b, trivial⟩
  widen := fun a b _ _ => ⟨CopyClass.mergeChecked_eq a b, trivial⟩
  missing := fun _ => ⟨rfl, trivial⟩

/-! ### Literal contents -/

namespace Content

/-- What holds if either value may hold. -/
def mergeChecked (a b : Content) : Checked Content :=
  if a = b then .ok a
  else
    match a.state.merge b.state with
    | .maybe => .ok any
    | state =>
      let s := a.literals.union b.literals
      if s.isEmpty then .ok ⟨s, state⟩ else ofLiterals s state

/-- Merges, and gives up all literals if that adds something to the first value. -/
def widenChecked (previous next : Content) : Checked Content := do
  let merged ← mergeChecked previous next
  if merged = previous then return merged else return top

/-- A set of literals that is not empty, or any content if there are too many. -/
theorem ofLiterals_of_not_isEmpty {s : FinSet Literal} (h : s.isEmpty = false) (state : NonLiteral) :
    ofLiterals s state = .ok (if s.size > literalCap then any else ⟨s, state⟩) := by
  unfold ofLiterals
  split
  · rfl
  · simp [h]

theorem mergeChecked_eq (a b : Content) : mergeChecked a b = .ok (merge a b) := by
  unfold mergeChecked merge
  split
  · rfl
  · have capped : ∀ state, (if (a.literals.union b.literals).isEmpty = true then .ok ⟨a.literals.union b.literals, state⟩
        else ofLiterals (a.literals.union b.literals) state) =
          (.ok (if (a.literals.union b.literals).size > literalCap then any else ⟨a.literals.union b.literals, state⟩) :
            Checked Content) := by
      intro state
      cases hempty : (a.literals.union b.literals).isEmpty with
      | true =>
        rw [if_pos rfl, FinSet.isEmpty_iff.1 hempty]
        rfl
      | false => exact ofLiterals_of_not_isEmpty hempty state
    cases a.state.merge b.state with
    | maybe => rfl
    | _ => exact capped _

end Content

/-- The constructors of literal contents. -/
def Constructors.contents : Constructors Content :=
  ⟨Content.mergeChecked, Content.widenChecked, fun e => .ok (Domain.missingContent e)⟩

theorem Constructors.contents_upholds : Constructors.contents.Upholds Domain.contents fun _ => True where
  merge := fun a b _ _ => ⟨Content.mergeChecked_eq a b, trivial⟩
  widen := by
    refine fun a b _ _ => ⟨?_, trivial⟩
    show Content.widenChecked a b = .ok (Content.widen a b)
    unfold Content.widenChecked Content.widen
    rw [Content.mergeChecked_eq]
    dsimp only [bind, Except.bind]
    split
    · rfl
    · rfl
  missing := fun _ => ⟨rfl, trivial⟩

end Dataflow
