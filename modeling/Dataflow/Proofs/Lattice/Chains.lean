import Dataflow.Proofs.Lattice.Bounds
import Mathlib.Data.Set.Card
import Mathlib.Order.Interval.Finset.Nat

/-!
# Chains of widening

A value at the head of a loop is widened round by round, by whatever comes in. Here rounds go on forever, and those are
counted in which the value changes.

## The notions

* `Domain.chain`: the value round by round.
* `Domain.changes`: the rounds in which it changes.
* `Domain.Ranks`: a number that every change lowers.

## What is proved

A number that every change lowers bounds how many changes there are (`Domain.Ranks.encard_changes_le`). Points-to values are
ranked by what is known about them, literal contents by whether there is anything to lose, taint by its place in the chain,
and classes of copies by their members; `chains_change_seldom` puts the four together.
-/

namespace Dataflow

namespace Domain

variable {V : Type} {D : Domain V}

/-- The value round by round: in each one it is widened by what comes in. -/
def chain (D : Domain V) (start : V) (coming : Nat → V) : Nat → V
  | 0 => start
  | n + 1 => D.widen (D.chain start coming n) (coming n)

/-- The rounds in which the value changes. -/
def changes (D : Domain V) (start : V) (coming : Nat → V) : Set Nat :=
  {n | D.chain start coming (n + 1) ≠ D.chain start coming n}

/-- Values of a kind are widened to values of that kind, and every change lowers the rank. -/
structure Ranks (D : Domain V) (P : V → Prop) (rank : V → Nat) : Prop where
  /-- The kind stays. -/
  keeps : ∀ a b, P a → P (D.widen a b)
  /-- A change lowers the rank. -/
  lowers : ∀ a b, P a → D.widen a b ≠ a → rank (D.widen a b) < rank a

namespace Ranks

variable {P : V → Prop} {rank : V → Nat} {start : V} {coming : Nat → V}

theorem chain (h : D.Ranks P rank) (hstart : P start) (n : Nat) : P (D.chain start coming n) := by
  induction n with
  | zero => exact hstart
  | succ n ih => exact h.keeps _ _ ih

theorem lt_of_mem_changes (h : D.Ranks P rank) (hstart : P start) {n : Nat} (hn : n ∈ D.changes start coming) :
    rank (D.chain start coming (n + 1)) < rank (D.chain start coming n) :=
  h.lowers _ _ (h.chain hstart n) hn

/-- The rank never rises. -/
theorem antitone (h : D.Ranks P rank) (hstart : P start) : Antitone fun n => rank (D.chain start coming n) := by
  refine antitone_nat_of_succ_le fun n => ?_
  by_cases hn : n ∈ D.changes start coming
  · exact (h.lt_of_mem_changes hstart hn).le
  · rw [Classical.not_not.1 hn]

/-- There are at most as many changes as the rank of the first value says. -/
theorem encard_changes_le (h : D.Ranks P rank) (hstart : P start) (coming : Nat → V) :
    (D.changes start coming).encard ≤ rank start := by
  -- A change is told by the rank before it: the rank after it is lower, and stays so.
  have later {m n : Nat} (hm : m ∈ D.changes start coming) (lt : m < n) :
      rank (D.chain start coming n) < rank (D.chain start coming m) :=
    Nat.lt_of_le_of_lt (h.antitone hstart lt) (h.lt_of_mem_changes hstart hm)
  have injective : Set.InjOn (fun n => rank (D.chain start coming n)) (D.changes start coming) := by
    intro m hm n hn same
    rcases Nat.lt_trichotomy m n with lt | eq | lt
    · exact absurd same (later hm lt).ne'
    · exact eq
    · exact absurd same (later hn lt).ne
  have bounded : Set.MapsTo (fun n => rank (D.chain start coming n)) (D.changes start coming)
      (Finset.Ioc 0 (rank start)) := by
    intro n hn
    rw [Finset.mem_coe, Finset.mem_Ioc]
    exact ⟨Nat.zero_lt_of_lt (h.lt_of_mem_changes hstart hn), h.antitone hstart (Nat.zero_le n)⟩
  calc (D.changes start coming).encard
      ≤ (Finset.Ioc 0 (rank start) : Set Nat).encard := Set.encard_le_encard_of_injOn bounded injective
    _ = rank start := by rw [Set.encard_coe_eq_coe_finsetCard, Nat.card_Ioc, Nat.sub_zero]

/-- If all values are ranked, there is no endless chain of states that are widened either. -/
theorem wellFounded_widenValue [DecidableEq V] (h : D.Ranks (fun _ => True) rank) :
    WellFounded fun new old : V => new ≠ old ∧ ∃ x, new = State.widenValue D old x := by
  refine Subrelation.wf (r := InvImage (· < ·) rank) ?_ (InvImage.wf _ Nat.lt_wfRel.wf)
  rintro new old ⟨hne, x, rfl⟩
  unfold State.widenValue at hne ⊢
  by_cases same : old = D.merge old x
  · exact absurd (by simp only [← same, if_pos]) hne
  · simp only [if_neg same] at hne ⊢
    exact h.lowers old _ trivial hne

end Ranks

end Domain

/-! ### Points-to values -/

namespace PointsTo

/-- How often a value can still be widened. -/
def height : PointsTo → Nat
  | unknown => 0
  | unknownNull | unknownNotNull => 1
  | _ => 2

theorem height_le (a : PointsTo) : a.height ≤ 2 := by
  cases a <;> simp [height]

theorem height_unknownWith_le (n : Nullness) : (unknownWith n).height ≤ 1 := by
  cases n <;> decide

/-- Unknown objects absorb what comes in, or nothing is known of them any more. -/
theorem unknownWith_merge_cases (n : Nullness) (b : PointsTo) :
    merge (unknownWith n) b = unknownWith n ∨ merge (unknownWith n) b = unknown := by
  cases n with
  | undefined | invalid | maybeNull => exact .inr (unknown_merge b)
  | null | notNull =>
    cases b with
    | known l k => cases k <;> simp [merge, unknownWith, nullness, Nullness.merge]
    | _ => simp [merge, unknownWith, nullness, Nullness.merge]

/-- Every change takes a value down to unknown objects, and unknown objects to those of which nothing is known. -/
theorem ranks : Domain.pointsTo.Ranks (fun _ => True) height where
  keeps _ _ _ := trivial
  lowers a b _ changed := by
    have gains : merge a b ≠ a := fun e => changed (widen_of_merge_eq e)
    have given : (unknownWith a.nullness = a) → merge a b = unknown := fun e => by
      rw [← e] at gains ⊢
      exact (unknownWith_merge_cases _ b).resolve_left gains
    show (widen a b).height < a.height
    rw [widen_of_merge_ne gains]
    cases a with
    | unknown => exact absurd (unknown_merge b) gains
    | unknownNull | unknownNotNull =>
      rw [given rfl]
      exact Nat.zero_lt_one
    | undefined | invalid | known | captures => exact Nat.lt_succ_of_le (height_unknownWith_le _)

end PointsTo

/-! ### Literal content and taint -/

/-- Content that changes becomes any content, which never changes. -/
theorem Content.ranks : Domain.contents.Ranks (fun _ => True) fun c => if c = any then 0 else 1 where
  keeps _ _ _ := trivial
  lowers a b _ changed := by
    have widened : widen a b = any := by
      unfold widen
      exact if_neg fun e => changed ((if_pos e).trans e)
    have ne : a ≠ any := by
      rintro rfl
      exact changed widened
    show (if widen a b = any then 0 else 1) < if a = any then 0 else 1
    rw [if_pos widened, if_neg ne]
    exact Nat.zero_lt_one

/-- Taint that changes becomes a greater one of the three. -/
theorem Taint.ranks : Domain.taint.Ranks (fun _ => True) fun t => 2 - t.rank where
  keeps _ _ _ := trivial
  lowers a b _ changed := by
    show 2 - (merge a b).rank < 2 - a.rank
    cases a <;> cases b <;> first | exact absurd rfl changed | decide

/-! ### Classes of copies -/

namespace CopyClass

/-- A class has members, or it was given up. -/
def IsSettled : CopyClass → Prop
  | known s => s ≠ FinSet.empty
  | unknown => True
  | notApplicable | invalid => False

theorem size_inter_lt {s t : FinSet Entity} (h : s.inter t ≠ s) : (s.inter t).size < s.size := by
  refine Nat.lt_of_le_of_ne (List.length_filter_le _ _) fun heq => h ?_
  refine FinSet.ext fun x => ⟨fun hx => (FinSet.mem_inter.1 hx).1, fun hx => ?_⟩
  have all := List.length_filter_eq_length_iff.1 heq x (FinSet.mem_toList.2 hx)
  exact FinSet.mem_inter.2 ⟨hx, all⟩

theorem size_pos {s : FinSet Entity} (h : s ≠ FinSet.empty) : 0 < s.size := by
  refine List.length_pos_iff.2 fun none => h (FinSet.isEmpty_iff.1 ?_)
  rw [FinSet.isEmpty, none]
  rfl

/-- A class keeps its members, loses some of them, or is given up. -/
theorem merge_known_cases (s : FinSet Entity) (b : CopyClass) : merge (known s) b = known s ∨
    merge (known s) b = unknown ∨ ∃ r, merge (known s) b = known r ∧ r ≠ FinSet.empty ∧ r.size < s.size := by
  cases b with
  | notApplicable | invalid => exact .inl rfl
  | unknown => exact .inr (.inl rfl)
  | known t =>
    by_cases same : s = t
    · rw [same, merge_self]
      exact .inl rfl
    · rw [known_merge_known same]
      by_cases common : (s.inter t).isEmpty = true
      · rw [if_pos common]
        exact .inr (.inl rfl)
      · rw [if_neg common]
        by_cases whole : s.inter t = s
        · rw [whole]
          exact .inl rfl
        · exact .inr (.inr ⟨_, rfl, fun e => common (FinSet.isEmpty_iff.2 e), size_inter_lt whole⟩)

/-- A class that changes loses members, all of them when it is given up. -/
theorem ranks : Domain.copies.Ranks IsSettled fun c => c.members.size where
  keeps a b settled := by
    show (merge a b).IsSettled
    cases a with
    | known s =>
      rcases merge_known_cases s b with e | e | ⟨r, e, nonempty, -⟩ <;> rw [e]
      · exact settled
      · trivial
      · exact nonempty
    | unknown =>
      rw [unknown_merge]
      trivial
    | notApplicable | invalid => exact settled.elim
  lowers a b settled changed := by
    show (merge a b).members.size < a.members.size
    cases a with
    | known s =>
      rcases merge_known_cases s b with e | e | ⟨r, e, -, fewer⟩
      · exact absurd e changed
      · rw [e]
        exact size_pos settled
      · rw [e]
        exact fewer
    | unknown => exact absurd (unknown_merge b) changed
    | notApplicable | invalid => exact settled.elim

end CopyClass

/-! ### All domains -/

/-- **Widening changes seldom.** However often it is widened and whatever comes in, a points-to value changes at most
twice, literal content at most once, taint at most twice, and a class of copies at most as often as it has members. -/
theorem chains_change_seldom :
    (∀ (start : PointsTo) (coming : Nat → PointsTo), (Domain.pointsTo.changes start coming).encard ≤ 2) ∧
    (∀ (start : Content) (coming : Nat → Content), (Domain.contents.changes start coming).encard ≤ 1) ∧
    (∀ (start : Taint) (coming : Nat → Taint), (Domain.taint.changes start coming).encard ≤ 2) ∧
    ∀ (members : FinSet Entity) (coming : Nat → CopyClass), (CopyClass.known members).Valid →
      (Domain.copies.changes (.known members) coming).encard ≤ members.size := by
  refine ⟨fun start coming => ?_, fun start coming => ?_, fun start coming => ?_, fun members coming valid => ?_⟩
  · exact (PointsTo.ranks.encard_changes_le trivial coming).trans (Nat.cast_le.2 start.height_le)
  · refine (Content.ranks.encard_changes_le trivial coming).trans (Nat.cast_le.2 ?_)
    split <;> decide
  · exact (Taint.ranks.encard_changes_le trivial coming).trans (Nat.cast_le.2 (Nat.sub_le 2 start.rank))
  · have settled : (CopyClass.known members).IsSettled := valid
    exact CopyClass.ranks.encard_changes_le settled coming

namespace Chains

/-- A variable of a method. -/
def named (name : String) : Entity := .localVar (.localVar name none) (.method "C" "main" none)

/-- Three variables hold the same value. -/
def three : FinSet Entity := FinSet.ofList [named "x", named "y", named "z"]

/-- One copy is lost after the other. -/
def losing : Nat → CopyClass
  | 0 => .known (FinSet.ofList [named "x", named "y"])
  | 1 => .known (FinSet.singleton (named "y"))
  | _ => .unknown

/-- A variable comes to hold an object, and then null. -/
def assigned : Nat → PointsTo
  | 0 => .known [.entity (named "x")] .notNull
  | _ => .nullLocation

end Chains

open Chains in
/-- Three copies are lost in three rounds, and a variable that was not assigned changes twice. -/
theorem chains_change_seldom_losing :
    (Domain.copies.changes (.known three) losing).encard ≤ 3 ∧
      {0, 1, 2} ⊆ Domain.copies.changes (.known three) losing ∧
      (Domain.pointsTo.changes .undefined assigned).encard ≤ 2 ∧
        {0, 1} ⊆ Domain.pointsTo.changes .undefined assigned := by
  obtain ⟨pointsTo, -, -, copies⟩ := chains_change_seldom
  have valid : (CopyClass.known three).Valid := show three ≠ FinSet.empty by decide +kernel
  have size : three.size = 3 := by decide +kernel
  refine ⟨?_, ?_, pointsTo .undefined assigned, ?_⟩
  · rw [show (3 : ℕ∞) = three.size by rw [size]; rfl]
    exact copies three losing valid
  · rintro n (rfl | rfl | rfl)
    all_goals
      rw [Domain.changes, Set.mem_ofPred_eq]
      decide +kernel
  · rintro n (rfl | rfl)
    all_goals
      rw [Domain.changes, Set.mem_ofPred_eq]
      decide +kernel

end Dataflow
