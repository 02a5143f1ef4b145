import Dataflow.Lattice.Basic
import Dataflow.Proofs.Lattice.Absorption

/-!
# The order of merging, and two kinds of values

The comparison that a merge induces is a partial order, in which the merge of two values is
their least upper bound, if merging is commutative, associative and idempotent. The laws
need hold of the values only that come about by the constructors, changes and merges.

## What is proved

`IsSemilattice.isJoinOrder` takes the step from the laws to the order, for any merge. Then the
laws are proved of classes of copies and of literal contents. They hold of all values that satisfy
the invariants of their constructors, and `Obtained` values do. On those a merge of equal values is
no special case any more: what it yields is what the general rule yields
(`CopyClass.merge_eq_ofCommon`, `Content.merge_eq_capped`). There is one exception, a content with literals
that may also be anything else; it is merged with itself only (`Content.merge_of_maybe`).
-/

namespace Dataflow

/-! ### From laws to an order -/

section Order

variable {V : Type} {P Q : V → Prop} {merge : V → V → V} {top a b c : V}

/-- The laws of merging, for the values of some kind. -/
structure IsSemilattice (P : V → Prop) (merge : V → V → V) (top : V) : Prop where
  /-- Merging stays among these values. -/
  closed : ∀ a b, P a → P b → P (merge a b)
  /-- The order of two values does not matter. -/
  comm : ∀ a b, P a → P b → merge a b = merge b a
  /-- The order in which several values are merged does not matter. -/
  assoc : ∀ a b c, P a → P b → P c → merge (merge a b) c = merge a (merge b c)
  /-- A value merged with itself stays as it is. -/
  idem : ∀ a, P a → merge a a = a
  /-- The top value is one of these values. -/
  hasTop : P top
  /-- The top value absorbs every other one. -/
  absorbs : ∀ a, P a → merge top a = top ∧ merge a top = top

variable [DecidableEq V]

/-- By its comparison, the first value is less than the second one or equal to it. -/
def AtMost (merge : V → V → V) (a b : V) : Prop :=
  compareByMerge merge a b = some .lt ∨ compareByMerge merge a b = some .eq

/-- The comparison is a partial order of the values of some kind, and merges are least upper
bounds. -/
structure IsJoinOrder (P : V → Prop) (merge : V → V → V) : Prop where
  /-- Only a value itself is equal to it. -/
  equal : ∀ a b, P a → P b → (compareByMerge merge a b = some .eq ↔ a = b)
  /-- The comparison the other way round has the opposite result. -/
  opposite : ∀ a b, P a → P b → compareByMerge merge b a = (compareByMerge merge a b).map Ordering.swap
  /-- Every value is at most itself. -/
  refl : ∀ a, P a → AtMost merge a a
  /-- Values that are at most each other are equal. -/
  antisymm : ∀ a b, P a → P b → AtMost merge a b → AtMost merge b a → a = b
  /-- The order is transitive. -/
  trans : ∀ a b c, P a → P b → P c → AtMost merge a b → AtMost merge b c → AtMost merge a c
  /-- A merge is an upper bound. -/
  upper : ∀ a b, P a → P b → AtMost merge a (merge a b) ∧ AtMost merge b (merge a b)
  /-- No upper bound is below it. -/
  least : ∀ a b c, P a → P b → P c → AtMost merge a c → AtMost merge b c → AtMost merge (merge a b) c

theorem compareByMerge_eq_some_eq : compareByMerge merge a b = some .eq ↔ a = b := by
  unfold compareByMerge
  split
  · simpa using ‹a = b›
  · split
    · simpa using ‹a ≠ b›
    · split <;> simpa using ‹a ≠ b›

/-- A value is at most another one that stays as it is when merged with itself if merging it adds nothing to that. -/
theorem atMost_iff_of_merge_self (self : merge b b = b) : AtMost merge a b ↔ merge a b = b := by
  unfold AtMost
  rw [compareByMerge_eq_some_eq]
  unfold compareByMerge
  by_cases hab : a = b
  · simpa [hab] using self
  · by_cases hm : merge a b = b
    · simp [hab, hm]
    · simp only [hab, hm, if_false, or_false, iff_false]
      split <;> simp

namespace IsSemilattice

variable (h : IsSemilattice P merge top)
include h

/-- A value is at most another one if merging it adds nothing to the other. -/
theorem atMost_iff (hb : P b) : AtMost merge a b ↔ merge a b = b := atMost_iff_of_merge_self (h.idem b hb)

/-- The comparison of two different values both ways round. -/
theorem compareByMerge_swap (ha : P a) (hb : P b) :
    compareByMerge merge b a = (compareByMerge merge a b).map Ordering.swap := by
  unfold compareByMerge
  rw [h.comm b a hb ha]
  by_cases hab : a = b
  · simp [hab]
  · rw [if_neg hab, if_neg (Ne.symm hab)]
    by_cases hl : merge a b = b
    · have hr : merge a b ≠ a := fun hr => hab (hr.symm.trans hl)
      rw [if_neg hr, if_pos hl, if_pos hl]
      rfl
    · rw [if_neg hl]
      split <;> rfl

omit [DecidableEq V] in
theorem merge_left (ha : P a) (hb : P b) : merge a (merge a b) = merge a b := by
  rw [← h.assoc a a b ha ha hb, h.idem a ha]

omit [DecidableEq V] in
/-- What one of two values has absorbed their merge has. -/
theorem merge_merge (ha : P a) (hb : P b) (hc : P c) (absorbed : merge c a = a ∨ merge c b = b) :
    merge c (merge a b) = merge a b := by
  rcases absorbed with e | e
  · rw [← h.assoc c a b hc ha hb, e]
  · rw [h.comm a b ha hb, ← h.assoc c b a hc hb ha, e]

/-- The order that the laws make. -/
theorem isJoinOrder : IsJoinOrder P merge where
  equal := fun _ _ _ _ => compareByMerge_eq_some_eq
  opposite := fun _ _ => h.compareByMerge_swap
  refl := fun a ha => (h.atMost_iff ha).2 (h.idem a ha)
  antisymm := by
    intro a b ha hb hab hba
    rw [h.atMost_iff hb] at hab
    rw [h.atMost_iff ha, h.comm b a hb ha] at hba
    exact hba.symm.trans hab
  trans := by
    intro a b c ha hb hc hab hbc
    rw [h.atMost_iff hb] at hab
    rw [h.atMost_iff hc] at hbc ⊢
    calc merge a c = merge a (merge b c) := by rw [hbc]
      _ = merge (merge a b) c := (h.assoc a b c ha hb hc).symm
      _ = c := by rw [hab, hbc]
  upper := by
    intro a b ha hb
    have hm := h.closed a b ha hb
    refine ⟨(h.atMost_iff hm).2 (h.merge_left ha hb), (h.atMost_iff hm).2 ?_⟩
    rw [h.comm a b ha hb]
    exact h.merge_left hb ha
  least := by
    intro a b c ha hb hc hac hbc
    rw [h.atMost_iff hc] at hac hbc ⊢
    rw [h.assoc a b c ha hb hc, hbc, hac]

omit [DecidableEq V] in
/-- The laws hold of fewer values, if these are closed. -/
theorem of_subset (sub : ∀ a, Q a → P a) (closed : ∀ a b, Q a → Q b → Q (merge a b)) (hasTop : Q top) :
    IsSemilattice Q merge top where
  closed := closed
  comm := fun a b ha hb => h.comm a b (sub a ha) (sub b hb)
  assoc := fun a b c ha hb hc => h.assoc a b c (sub a ha) (sub b hb) (sub c hc)
  idem := fun a ha => h.idem a (sub a ha)
  hasTop := hasTop
  absorbs := fun a ha => h.absorbs a (sub a ha)

end IsSemilattice

end Order

/-! ### Copies -/

namespace CopyClass

/-- The classes that come about by constructors, changes and merges. -/
inductive Obtained : CopyClass → Prop where
  /-- Nothing is known yet. -/
  | notApplicable : Obtained notApplicable
  /-- The path cannot be taken. -/
  | invalid : Obtained invalid
  /-- No entity is known. -/
  | unknown : Obtained unknown
  /-- Some entities. -/
  | members {s : FinSet Entity} {c : CopyClass} : ofMembers s = .ok c → Obtained c
  /-- One entity. -/
  | singleton (e : Entity) : Obtained (singleton e)
  /-- An entity joins. -/
  | added {e : Entity} {c d : CopyClass} : Obtained c → add e c = .ok d → Obtained d
  /-- An entity leaves. -/
  | removed {e : Entity} {c d : CopyClass} : Obtained c → remove e c = .ok d → Obtained d
  /-- Some entities leave. -/
  | removedAll {l : List Entity} {c d : CopyClass} : Obtained c → removeAll l c = .ok d → Obtained d
  /-- A merge. -/
  | merged {c d : CopyClass} : Obtained c → Obtained d → Obtained (merge c d)

/-- The class of common members. -/
def ofCommon (s : FinSet Entity) : CopyClass := if s.isEmpty then unknown else known s

theorem valid_ofMembers {s : FinSet Entity} {c : CopyClass} (h : ofMembers s = .ok c) : c.Valid := by
  unfold ofMembers at h
  split at h
  · cases h
  · obtain rfl := Except.ok.inj h
    exact fun he => ‹¬ s.isEmpty = true› (FinSet.isEmpty_iff.2 he)

theorem valid_ofCommon (s : FinSet Entity) : (ofCommon s).Valid := by
  unfold ofCommon
  split
  · trivial
  · exact fun he => ‹¬ s.isEmpty = true› (FinSet.isEmpty_iff.2 he)

/-- Merging a class that has members with itself is no exception. -/
theorem merge_eq_ofCommon {s t : FinSet Entity} (hs : (known s).Valid) :
    merge (known s) (known t) = ofCommon (s.inter t) := by
  by_cases h : s = t
  · have self : s.inter s = s := FinSet.ext fun x => by rw [FinSet.mem_inter, and_self]
    rw [← h, merge_self, self, ofCommon, if_neg fun he => hs (FinSet.isEmpty_iff.1 he)]
  · exact known_merge_known h

theorem ofCommon_merge (s t : FinSet Entity) :
    merge (ofCommon s) (known t) = ofCommon (s.inter t) := by
  by_cases hs : s.isEmpty
  · have none : s.inter t = FinSet.empty :=
      FinSet.ext fun x => by rw [FinSet.isEmpty_iff.1 hs, FinSet.mem_inter]; simp [FinSet.not_mem_empty]
    rw [none, ofCommon, if_pos hs]
    rfl
  · rw [ofCommon, if_neg hs, merge_eq_ofCommon fun he => hs (FinSet.isEmpty_iff.2 he)]

@[simp]
theorem notApplicable_merge (c : CopyClass) : merge notApplicable c = c := by
  cases c <;> rfl

@[simp]
theorem merge_notApplicable (c : CopyClass) : merge c notApplicable = c := by
  cases c <;> rfl

theorem invalid_merge {c : CopyClass} (h : c ≠ notApplicable) : merge invalid c = c := by
  cases c <;> first | rfl | exact absurd rfl h

theorem merge_invalid {c : CopyClass} (h : c ≠ notApplicable) : merge c invalid = c := by
  cases c <;> first | rfl | exact absurd rfl h

@[simp]
theorem unknown_merge (c : CopyClass) : merge unknown c = unknown := by
  cases c <;> rfl

@[simp]
theorem merge_unknown (c : CopyClass) : merge c unknown = unknown := by
  cases c <;> rfl

theorem ofCommon_ne_notApplicable (s : FinSet Entity) : ofCommon s ≠ notApplicable := by
  unfold ofCommon
  split <;> exact CopyClass.noConfusion

theorem merge_comm {c d : CopyClass} (hc : c.Valid) (hd : d.Valid) : merge c d = merge d c := by
  cases c <;> cases d <;> try rfl
  case known.known s t =>
    have common : s.inter t = t.inter s := FinSet.ext fun x => by rw [FinSet.mem_inter, FinSet.mem_inter, and_comm]
    rw [merge_eq_ofCommon hc, merge_eq_ofCommon hd, common]

theorem merge_valid {c d : CopyClass} (hc : c.Valid) (hd : d.Valid) : (merge c d).Valid := by
  cases c <;> cases d <;> try exact trivial
  case notApplicable.known => exact hd
  case invalid.known => exact hd
  case known.notApplicable => exact hc
  case known.invalid => exact hc
  case known.known => exact merge_eq_ofCommon hc ▸ valid_ofCommon _

theorem merge_assoc {a b c : CopyClass} (ha : a.Valid) (hb : b.Valid) :
    merge (merge a b) c = merge a (merge b c) := by
  cases a with
  | notApplicable => rw [notApplicable_merge, notApplicable_merge]
  | unknown => rw [unknown_merge, unknown_merge, unknown_merge]
  | invalid =>
    cases b with
    | known s =>
      cases c with
      | known t =>
        rw [merge_eq_ofCommon hb, invalid_merge (ofCommon_ne_notApplicable _)]
        exact merge_eq_ofCommon hb
      | _ => rfl
    | _ => cases c <;> rfl
  | known s =>
    cases b with
    | known t =>
      cases c with
      | known u =>
        have common : (s.inter t).inter u = (t.inter u).inter s := FinSet.ext fun x => by
          simp only [FinSet.mem_inter, and_comm, and_assoc]
        rw [merge_eq_ofCommon ha, merge_eq_ofCommon hb, ofCommon_merge, merge_comm ha (valid_ofCommon _), ofCommon_merge, common]
      | invalid => rw [merge_eq_ofCommon ha, merge_invalid (ofCommon_ne_notApplicable _)]; exact (merge_eq_ofCommon ha).symm
      | _ => simp
    | _ => cases c <;> rfl

theorem isSemilattice : IsSemilattice Valid merge top where
  closed := fun _ _ => merge_valid
  comm := fun _ _ => merge_comm
  assoc := fun _ _ _ ha hb _ => merge_assoc ha hb
  idem := fun a _ => merge_self a
  hasTop := trivial
  absorbs := fun a _ => ⟨unknown_merge a, merge_unknown a⟩

theorem Obtained.valid {c : CopyClass} (h : c.Obtained) : c.Valid := by
  induction h with
  | notApplicable | invalid | unknown => trivial
  | members h => exact valid_ofMembers h
  | singleton e => exact fun h => FinSet.not_mem_empty e (h ▸ FinSet.mem_singleton.2 rfl)
  | @added e c d _ h _ =>
    cases c with
    | known s => exact valid_ofMembers h
    | _ => cases h
  | @removed e c d _ h _ =>
    cases c with
    | known s =>
      simp only [remove] at h
      split at h
      · cases h
      · split at h
        · cases h
        · exact valid_ofMembers h
    | _ => cases h
  | @removedAll l c d _ h _ =>
    cases c with
    | known s =>
      simp only [removeAll] at h
      cases hrest : removeEach s l with
      | error v =>
        rw [hrest] at h
        cases h
      | ok rest =>
        rw [hrest] at h
        have left : (if rest.isEmpty then .error .everyMember else ofMembers rest) = Except.ok d := h
        split at left
        · cases left
        · exact valid_ofMembers left
    | _ => cases h
  | merged _ _ hc hd => exact merge_valid hc hd

end CopyClass

/-! ### Literal content -/

namespace NonLiteral

theorem merge_comm (a b : NonLiteral) : a.merge b = b.merge a := by
  cases a <;> cases b <;> rfl

theorem merge_assoc (a b c : NonLiteral) : (a.merge b).merge c = a.merge (b.merge c) := by
  cases a <;> cases b <;> cases c <;> rfl

theorem merge_ne_maybe {a b : NonLiteral} (ha : a ≠ maybe) (hb : b ≠ maybe) : a.merge b ≠ maybe := by
  cases a <;> cases b <;> simp_all [merge]

theorem merge_self (a : NonLiteral) : a.merge a = a := by
  cases a <;> rfl

end NonLiteral

namespace Content

/-- The contents that come about by constructors, operators and merges. -/
inductive Obtained : Content → Prop where
  /-- Nothing is known yet. -/
  | undefined : Obtained undefined
  /-- The path cannot be taken. -/
  | invalid : Obtained invalid
  /-- Any content. -/
  | any : Obtained any
  /-- One literal. -/
  | literal (l : Literal) : Obtained (ofLiteral l)
  /-- Some literals. -/
  | literals {s : FinSet Literal} {state : NonLiteral} {c : Content} : ofLiterals s state = .ok c → Obtained c
  /-- The result of an operator. -/
  | binary {operator : BinaryOperator} {a b c : Content} :
      Obtained a → Obtained b → binary operator a b = .ok c → Obtained c
  /-- A merge. -/
  | merged {a b : Content} : Obtained a → Obtained b → Obtained (merge a b)

/-- There are not too many literals. -/
def IsSmall (c : Content) : Prop := c.literals.size ≤ literalCap

/-- Some literals, or any content if there are too many. -/
def capped (s : FinSet Literal) (state : NonLiteral) : Content :=
  if s.size > literalCap then any else ⟨s, state⟩

variable {a b c : Content}

theorem any_isSmall : any.IsSmall := Nat.zero_le _

/-- Literals besides which there may be anything else are not merged with anything but themselves. -/
theorem merge_of_maybe (ha : a.state = .maybe) : merge a b = if a = b then a else any := by
  unfold merge
  rw [ha, NonLiteral.maybe_merge]

/-- Merging a content with itself is no exception. -/
theorem merge_eq_capped (ha : a.state ≠ .maybe) (hb : b.state ≠ .maybe) (hs : a.IsSmall) :
    merge a b = capped (a.literals.union b.literals) (a.state.merge b.state) := by
  by_cases h : a = b
  · subst h
    have self : a.literals.union a.literals = a.literals := FinSet.ext fun x => by rw [FinSet.mem_union, or_self]
    rw [merge_self, self, NonLiteral.merge_self, capped, if_neg (Nat.not_lt.2 hs)]
  · have hstate := NonLiteral.merge_ne_maybe ha hb
    unfold merge
    rw [if_neg h]
    split
    · exact absurd ‹_› hstate
    · rfl

/-- Too many literals stay too many. -/
theorem capped_merge {s : FinSet Literal} {state : NonLiteral} (hstate : state ≠ .maybe) (hb : b.state ≠ .maybe) :
    merge (capped s state) b = capped (s.union b.literals) (state.merge b.state) := by
  by_cases hs : s.size > literalCap
  · have grows : s.size ≤ (s.union b.literals).size := Ascending.length_le_union _ _
    rw [capped, if_pos hs, any_merge, capped, if_pos (Nat.lt_of_lt_of_le hs grows)]
  · have small : capped s state = ⟨s, state⟩ := if_neg hs
    rw [small, merge_eq_capped hstate hb (Nat.le_of_not_lt hs)]

theorem merge_comm (a b : Content) : merge a b = merge b a := by
  by_cases h : a = b
  · rw [h]
  · have union : a.literals.union b.literals = b.literals.union a.literals := FinSet.ext fun x => by
      rw [FinSet.mem_union, FinSet.mem_union, or_comm]
    unfold merge
    rw [if_neg h, if_neg (Ne.symm h), NonLiteral.merge_comm, union]

theorem merge_isSmall (a : Content) (hb : b.IsSmall) : (merge a b).IsSmall := by
  by_cases h : a = b
  · rw [h, merge_self]
    exact hb
  · rcases merge_of_ne h with e | ⟨-, hsize, e⟩
    · exact e ▸ any_isSmall
    · exact e ▸ hsize

/-- A merge with literals besides which there may be anything else. -/
theorem merge_assoc_of_maybe (ha : a.state = .maybe) : merge (merge a b) c = merge a (merge b c) := by
  by_cases hab : a = b
  · rw [← hab, merge_self, absorb_merge]
  · rw [merge_of_maybe ha, if_neg hab, any_merge, merge_of_maybe ha]
    split
    · rename_i h
      by_cases hbc : b = c
      · rw [← hbc, merge_self] at h
        exact absurd h hab
      · rcases merge_of_ne hbc with e | ⟨hm, -, e⟩
        · rw [h, e]
        · rw [h, e] at ha
          exact absurd ha hm
    · rfl

theorem merge_assoc (hsa : a.IsSmall) (hsb : b.IsSmall) :
    merge (merge a b) c = merge a (merge b c) := by
  by_cases ha : a.state = .maybe
  · exact merge_assoc_of_maybe ha
  by_cases hc : c.state = .maybe
  · calc merge (merge a b) c = merge c (merge b a) := by rw [merge_comm, merge_comm a]
      _ = merge (merge c b) a := (merge_assoc_of_maybe hc).symm
      _ = merge a (merge b c) := by rw [merge_comm, merge_comm c]
  by_cases hb : b.state = .maybe
  · have hab : a ≠ b := fun h => ha (h ▸ hb)
    have hbc : b ≠ c := fun h => hc (h ▸ hb)
    rw [merge_comm a, merge_of_maybe hb, if_neg hab.symm, merge_of_maybe hb, if_neg hbc, any_merge, merge_any]
  have union : (a.literals.union b.literals).union c.literals = (b.literals.union c.literals).union a.literals :=
    FinSet.ext fun x => by simp only [FinSet.mem_union, or_comm, or_assoc]
  rw [merge_eq_capped ha hb hsa, merge_eq_capped hb hc hsb, capped_merge (NonLiteral.merge_ne_maybe ha hb) hc,
    merge_comm a, capped_merge (NonLiteral.merge_ne_maybe hb hc) ha, union, NonLiteral.merge_assoc,
    NonLiteral.merge_comm a.state]

/-- What one of two contents has absorbed their merge has, even if there are too many literals. -/
theorem merge_merge (absorbed : merge c a = a ∨ merge c b = b) : merge c (merge a b) = merge a b := by
  have first {c a b : Content} (absorbed : merge c a = a) : merge c (merge a b) = merge a b := by
    by_cases same : c = a
    · rw [same, absorb_merge]
    · rcases merge_of_ne same with e | ⟨-, few, e⟩
      · rw [← absorbed, e, any_merge, merge_any]
      · rw [absorbed] at e
        have smallA : a.IsSmall := e ▸ few
        have smallC : c.IsSmall := Nat.le_trans (Ascending.length_le_union _ _) few
        rw [← merge_assoc smallC smallA, absorbed]
  rcases absorbed with e | e
  · exact first e
  · rw [merge_comm a b]
    exact first e

theorem isSemilattice : IsSemilattice IsSmall merge top where
  closed := fun a _ _ hb => merge_isSmall a hb
  comm := fun a b _ _ => merge_comm a b
  assoc := fun _ _ _ ha hb _ => merge_assoc ha hb
  idem := fun a _ => merge_self a
  hasTop := any_isSmall
  absorbs := fun a _ => ⟨any_merge a, merge_any a⟩

theorem ofLiterals_isSmall {s : FinSet Literal} {state : NonLiteral} (h : ofLiterals s state = .ok c) :
    c.IsSmall := by
  unfold ofLiterals at h
  split at h
  · exact Except.ok.inj h ▸ any_isSmall
  · split at h
    · cases h
    · obtain rfl := Except.ok.inj h
      exact Nat.le_of_not_lt ‹_›

theorem Obtained.isSmall (h : c.Obtained) : c.IsSmall := by
  induction h with
  | undefined | invalid | any => exact Nat.zero_le _
  | literal l => exact (by decide : 1 ≤ literalCap)
  | literals h => exact ofLiterals_isSmall h
  | binary _ _ h _ _ =>
    unfold Content.binary at h
    split at h
    · exact Except.ok.inj h ▸ any_isSmall
    · split at h
      · exact Except.ok.inj h ▸ any_isSmall
      · split at h
        · exact ofLiterals_isSmall h
        · exact Except.ok.inj h ▸ any_isSmall
  | merged _ _ _ hb => exact merge_isSmall _ hb

end Content

end Dataflow
