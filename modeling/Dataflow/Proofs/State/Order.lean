import Mathlib.Data.List.Perm.Basic
import Dataflow.Proofs.Contracts.Joins
import Dataflow.Proofs.Lattice.Semilattice
import Dataflow.Proofs.State.Writes

/-!
# Writes in any order

A write to an entity that names one cell forgets what the entity gained from writes to its aliases
before. So if several entities are written to, it may matter in which order.

## The notions

* `State.writeAll`: writes one after the other.
* `State.Settled`: no entity that is written to could gain anything from the other writes.

## What is proved

Writes to different entities lead to one state in any order exactly if they are settled (`writeAll_perm_iff`):
two of them next to each other may be swapped (`write_comm`), and if any two may then the later one adds nothing.
-/

namespace Dataflow

namespace State

variable {V : Type} {P : V → Prop} {D : Domain V} {s : State V} {l l' : List (Entity × V)}

/-- Writes values to entities, one after the other. -/
def writeAll (D : Domain V) (l : List (Entity × V)) (s : State V) : State V :=
  l.foldl (fun s x => write D x.1 x.2 s) s

/-- Writes mention nothing new but what they are to. -/
theorem isSome_find?_writeAll (D : Domain V) (l : List (Entity × V)) (s : State V) (e : Entity) :
    ((writeAll D l s).find? e).isSome = true ↔ (s.find? e).isSome = true ∨ e ∈ l.map (·.1) := by
  induction l generalizing s with
  | nil => simp [writeAll]
  | cons x l ih =>
    rw [writeAll, List.foldl_cons, ← writeAll, ih, isSome_find?_write, List.map_cons, List.mem_cons, or_assoc]

/-- What an entity that was not mentioned holds right after a write to it. -/
def fresh (D : Domain V) (x : Entity × V) : V :=
  if x.1.hasUnknownOwner then D.merge (D.missing x.1) x.2 else x.2

/-- What an entity holds right after a write to it is all that it can gain from the other writes. An entity of unknown
objects that was mentioned before forgets nothing. -/
def Settled (D : Domain V) (s : State V) (l : List (Entity × V)) : Prop :=
  ∀ x ∈ l, ∀ y ∈ l, x.1 ≠ y.1 → y.1.mayAlias x.1 = true → (x.1.hasUnknownOwner = true → s.find? x.1 = none) →
    D.merge (fresh D x) y.2 = fresh D x

theorem Settled.mono (h : Settled D s l) (sub : l' ⊆ l) : Settled D s l' :=
  fun x hx y hy => h x (sub hx) y (sub hy)

/-- What is written to elsewhere does not matter. -/
theorem Settled.tail {x : Entity × V} (h : Settled D s (x :: l)) (new : ∀ y ∈ l, y.1 ≠ x.1) :
    Settled D (write D x.1 x.2 s) l := by
  intro y hy z hz hne halias tracked
  refine h y (List.mem_cons_of_mem _ hy) z (List.mem_cons_of_mem _ hz) hne halias fun unknown => ?_
  have same := tracked unknown
  rw [find?_write, if_neg (new y hy)] at same
  split at same
  · exact Option.map_eq_none_iff.1 same
  · exact same

section Laws

theorem Each.valueOr (missing : ∀ e, P (D.missing e)) (hs : s.Each P) (e : Entity) : P (valueOr D s e) := by
  unfold State.valueOr
  cases h : s.find? e with
  | some v => exact hs e v h
  | none => exact missing e

variable (law : IsSemilattice P D.merge D.top) (missing : ∀ e, P (D.missing e))
include law missing

theorem Each.write (hs : s.Each P) (e : Entity) {v : V} (hv : P v) : (write D e v s).Each P := by
  intro a w hw
  rw [find?_write] at hw
  split at hw
  · rw [← Option.some.inj hw]
    split
    · exact law.closed _ _ (hs.valueOr missing e) hv
    · exact hv
  · split at hw
    · obtain ⟨u, hu, rfl⟩ := Option.map_eq_some_iff.1 hw
      exact law.closed _ _ (hs a u hu) hv
    · exact hs a w hw

omit missing in
/-- Two writes may be swapped if neither entity could gain anything from the other write. -/
theorem write_comm {x y : Entity × V} (hs : s.Each P) (hx : P x.2) (hy : P y.2) (hne : x.1 ≠ y.1)
    (settled : Settled D s [x, y]) : write D x.1 x.2 (write D y.1 y.2 s) = write D y.1 y.2 (write D x.1 x.2 s) := by
  have swap (u v w : V) (hu : P u) (hv : P v) (hw : P w) : D.merge (D.merge u w) v = D.merge (D.merge u v) w := by
    rw [law.assoc u w v hu hw hv, law.comm w v hw hv, ← law.assoc u v w hu hv hw]
  -- what one of the two holds after both writes
  have either {x y : Entity × V} (hx : P x.2) (hy : P y.2) (hne : x.1 ≠ y.1) (settled : Settled D s [x, y]) :
      (write D x.1 x.2 (write D y.1 y.2 s)).find? x.1 = (write D y.1 y.2 (write D x.1 x.2 s)).find? x.1 := by
    have absorbs := settled x List.mem_cons_self y (by simp) hne
    rw [find?_write D x.1, if_pos rfl, find?_write D y.1, if_neg hne, find?_write D x.1, if_pos rfl]
    unfold State.valueOr
    rw [find?_write D y.1, if_neg hne]
    by_cases halias : y.1.mayAlias x.1 = true
    · rw [if_pos halias, if_pos halias, Option.map_some]
      replace absorbs := absorbs halias
      unfold fresh at absorbs
      cases hunknown : x.1.hasUnknownOwner with
      | false =>
        simp only [hunknown, Bool.false_eq_true, if_false, false_implies, true_implies] at absorbs ⊢
        rw [absorbs]
      | true =>
        cases hs' : s.find? x.1 with
        | none =>
          simp only [hunknown, hs', if_true, implies_true, true_implies] at absorbs
          simp [absorbs]
        | some u => simp [swap u x.2 y.2 (hs x.1 u hs') hx hy]
    · rw [if_neg halias, if_neg halias]
  refine FinMap.ext fun a => ?_
  by_cases hax : a = x.1
  · exact hax ▸ either hx hy hne settled
  · by_cases hay : a = y.1
    · exact hay ▸ (either hy hx hne.symm (settled.mono (by simp))).symm
    · rw [find?_write D x.1, find?_write D y.1, find?_write D y.1, find?_write D x.1]
      simp only [hax, hay, if_false]
      cases hs' : s.find? a with
      | none => simp
      | some u => split <;> split <;> simp [swap u x.2 y.2 (hs a u hs') hx hy]

/-- Settled writes lead to one state in any order. -/
theorem writeAll_perm (hs : s.Each P) (hl : ∀ x ∈ l, P x.2) (nodup : (l.map (·.1)).Nodup) (settled : Settled D s l)
    (p : l.Perm l') : writeAll D l s = writeAll D l' s := by
  induction p generalizing s with
  | nil => rfl
  | cons x p ih =>
    obtain ⟨new, nodup⟩ := List.nodup_cons.1 nodup
    have tail := settled.tail fun y hy h => new (List.mem_map.2 ⟨y, hy, h⟩)
    exact ih (hs.write law missing x.1 (hl x List.mem_cons_self)) (fun y hy => hl y (List.mem_cons_of_mem _ hy)) nodup
      tail
  | swap x y l =>
    have hne : x.1 ≠ y.1 := fun h => (List.nodup_cons.1 nodup).1 (List.mem_map.2 ⟨x, List.mem_cons_self, h⟩)
    have two : Settled D s [x, y] := settled.mono (by simp)
    exact congrArg (writeAll D l) (write_comm law hs (hl x (by simp)) (hl y (by simp)) hne two)
  | trans p _ ih ih' =>
    rw [ih hs hl nodup settled]
    exact ih' hs (fun x hx => hl x (p.mem_iff.2 hx)) ((p.map _).nodup_iff.1 nodup) (settled.mono p.symm.subset)

end Laws

/-- Writes to other entities do not mention an entity. -/
theorem find?_writeAll_eq_none {e : Entity} (hs : s.find? e = none) (new : ∀ x ∈ l, e ≠ x.1) :
    (writeAll D l s).find? e = none := by
  induction l generalizing s with
  | nil => exact hs
  | cons x l ih =>
    refine ih ?_ fun y hy => new y (List.mem_cons_of_mem _ hy)
    rw [find?_write, if_neg (new x List.mem_cons_self), hs]
    split <;> rfl

/-- What an entity holds right after a write to it, unless it stands for many cells and was mentioned before. -/
theorem find?_write_self {x : Entity × V} (tracked : x.1.hasUnknownOwner = true → s.find? x.1 = none) :
    (write D x.1 x.2 s).find? x.1 = some (fresh D x) := by
  rw [find?_write, if_pos rfl, fresh]
  cases hunknown : x.1.hasUnknownOwner with
  | false => rfl
  | true => rw [valueOr_of_not_mentioned D (tracked hunknown)]

/-- If two writes may be swapped then the first one's entity gains nothing from the second one. -/
theorem merge_fresh_of_comm {x y : Entity × V} (hne : x.1 ≠ y.1) (halias : y.1.mayAlias x.1 = true)
    (tracked : x.1.hasUnknownOwner = true → s.find? x.1 = none)
    (same : write D y.1 y.2 (write D x.1 x.2 s) = write D x.1 x.2 (write D y.1 y.2 s)) :
    D.merge (fresh D x) y.2 = fresh D x := by
  have held := congrArg (fun t => FinMap.find? t x.1) same
  rw [find?_write D y.1, if_neg hne, if_pos halias, find?_write_self tracked, find?_write_self] at held
  · exact Option.some.inj held
  · intro unknown
    rw [find?_write, if_neg hne, tracked unknown]
    split <;> rfl

/-- Any two members may come first. -/
theorem exists_perm_cons_cons {x y : Entity × V} (hx : x ∈ l) (hy : y ∈ l) (hne : x.1 ≠ y.1) :
    ∃ rest, l.Perm (x :: y :: rest) := by
  obtain ⟨front, back, rfl⟩ := List.append_of_mem hx
  have hy' : y ∈ front ++ back := by
    rcases List.mem_append.1 hy with hy | hy
    · exact List.mem_append_left _ hy
    · exact List.mem_append_right _ ((List.mem_cons.1 hy).resolve_left fun h => hne (congrArg Prod.fst h.symm))
  obtain ⟨front', back', h⟩ := List.append_of_mem hy'
  exact ⟨front' ++ back', List.perm_middle.trans (.cons x (h ▸ List.perm_middle))⟩

/-- If the order of writes does not matter then they are settled: any two of them may come last, one way round and the
other. -/
theorem settled_of_perm (nodup : (l.map (·.1)).Nodup) (h : ∀ l', l.Perm l' → writeAll D l' s = writeAll D l s) :
    Settled D s l := by
  intro x hx y hy hne halias tracked
  obtain ⟨rest, p⟩ := exists_perm_cons_cons hx hy hne
  have new : ∀ z ∈ rest, x.1 ≠ z.1 := by
    have := (p.map Prod.fst).nodup_iff.1 nodup
    rw [List.map_cons, List.map_cons, List.nodup_cons, List.mem_cons, not_or] at this
    exact fun z hz h => this.1.2 (List.mem_map.2 ⟨z, hz, h.symm⟩)
  have atEnd (a b : Entity × V) : (a :: b :: rest).Perm (rest ++ [a, b]) := @List.perm_append_comm _ [a, b] rest
  have forwards : l.Perm (rest ++ [x, y]) := p.trans (atEnd x y)
  have backwards : l.Perm (rest ++ [y, x]) := p.trans ((List.Perm.swap y x rest).trans (atEnd y x))
  have last := (h _ forwards).trans (h _ backwards).symm
  unfold writeAll at last
  rw [List.foldl_append, List.foldl_append] at last
  exact merge_fresh_of_comm hne halias (fun unknown => find?_writeAll_eq_none (tracked unknown) new) last

/-- Writes to different entities lead to one state in any order exactly if they are settled. -/
theorem writeAll_perm_iff (law : IsSemilattice P D.merge D.top) (missing : ∀ e, P (D.missing e)) (hs : s.Each P)
    (hl : ∀ x ∈ l, P x.2) (nodup : (l.map (·.1)).Nodup) :
    (∀ l', l.Perm l' → writeAll D l' s = writeAll D l s) ↔ Settled D s l :=
  ⟨settled_of_perm nodup, fun settled _ p => (writeAll_perm law missing hs hl nodup settled p).symm⟩

end State

end Dataflow
