import Dataflow.Proofs.Calls.Ledger

/-!
# Reservations on a ledger

The operations of a callee are reserved before they are analysed. A reservation is granted if all operations that are then
reserved are within a budget, and every reservation comes with a budget of its own. The ledger counts with machine words;
here it is compared with an account that counts with numbers of any size.

## The notions

* `Reservation.Fits`: with so many operations reserved already, the reservation is within its budget.
* `Reservation.verdicts`, `Reservation.spentOn`: which of some reservations are to be granted one after the other, and how
  many operations are reserved in the end.
* `Reservation.Countable`: no sum that comes up is beyond machine words.
* `Ledger.reserveAll`: what the ledger answers to some reservations one after the other.

## What is proved

A reservation is granted exactly if it fits. It is refused exactly if it does not fit and its sum is a machine word; if the
sum is none, there is no answer (`Ledger.reserve?_eq_some_iff`, `Ledger.reserve?_eq_none_iff`,
`Ledger.reserve?_eq_error_iff`). By induction on reservations, the ledger answers and counts as the account does as long as
sums are countable, and has no answer otherwise (`Ledger.reservations_add_up`).
-/

namespace Dataflow

/-- What is asked of a ledger. -/
structure Reservation where
  /-- The number of operations. -/
  nodes : UInt64
  /-- How many operations may be reserved in all. -/
  budget : UInt64
  deriving DecidableEq

namespace Reservation

/-- The reservation is within its budget, if `used` operations are reserved already. -/
def Fits (used : Nat) (r : Reservation) : Prop := used + r.nodes.toNat ≤ r.budget.toNat

instance (used : Nat) (r : Reservation) : Decidable (r.Fits used) := inferInstanceAs (Decidable (_ ≤ _))

/-- The number of operations that are reserved once the reservation is granted or refused. -/
def spent (used : Nat) (r : Reservation) : Nat := if r.Fits used then used + r.nodes.toNat else used

/-- Which of some reservations fit, one after the other. -/
def verdicts (used : Nat) : List Reservation → List Bool
  | [] => []
  | r :: rs => decide (r.Fits used) :: verdicts (r.spent used) rs

/-- The number of operations that are reserved after some reservations. -/
def spentOn (used : Nat) (rs : List Reservation) : Nat := rs.foldl spent used

/-- No sum that comes up is beyond machine words. -/
def Countable (used : Nat) : List Reservation → Prop
  | [] => True
  | r :: rs => used + r.nodes.toNat < UInt64.size ∧ Countable (r.spent used) rs

variable {used : Nat} {r : Reservation} {rs : List Reservation}

theorem spent_of_fits (h : r.Fits used) : r.spent used = used + r.nodes.toNat := if_pos h

theorem spent_of_not_fits (h : ¬r.Fits used) : r.spent used = used := if_neg h

/-- What fits is a machine word. -/
theorem Fits.lt_size (h : r.Fits used) : used + r.nodes.toNat < UInt64.size :=
  Nat.lt_of_le_of_lt h r.budget.toNat_lt

/-- With one budget for all reservations, no more operations are reserved. -/
theorem spentOn_le {budget : UInt64} (one : ∀ r ∈ rs, r.budget = budget) (h : used ≤ budget.toNat) :
    spentOn used rs ≤ budget.toNat := by
  induction rs generalizing used with
  | nil => exact h
  | cons r rs ih =>
    refine ih (fun d hd => one d (List.mem_cons_of_mem _ hd)) ?_
    by_cases fits : r.Fits used
    · rw [spent_of_fits fits, ← one r List.mem_cons_self]
      exact fits
    · rw [spent_of_not_fits fits]
      exact h

end Reservation

namespace Ledger

variable {V : Type} {ledger after : Ledger V} {nodes budget : UInt64} {v : Violation}

/-- The ledger with another count of operations. -/
def counting (n : Nat) (ledger : Ledger V) : Ledger V := { ledger with nodesUsed := UInt64.ofNat n }

theorem counting_self (ledger : Ledger V) : ledger.counting ledger.nodesUsed.toNat = ledger := by
  simp [counting]

theorem toNat_nodesUsed_counting {n : Nat} (h : n < UInt64.size) : (ledger.counting n).nodesUsed.toNat = n :=
  UInt64.toNat_ofNat_of_lt' h

/-! ### One reservation -/

/-- What fits is granted and counted. -/
theorem reserve?_of_fits (h : Reservation.Fits ledger.nodesUsed.toNat ⟨nodes, budget⟩) :
    ledger.reserve? nodes budget = .ok (some (ledger.counting (ledger.nodesUsed.toNat + nodes.toNat))) := by
  have sum : (ledger.nodesUsed + nodes).toNat = ledger.nodesUsed.toNat + nodes.toNat := by
    rw [UInt64.toNat_add]
    exact Nat.mod_eq_of_lt h.lt_size
  have within : ¬ledger.nodesUsed + nodes > budget := by
    rw [gt_iff_lt, UInt64.lt_iff_toNat_lt, sum]
    exact Nat.not_lt.2 h
  rw [reserve?, if_neg (Nat.not_le.2 h.lt_size), if_neg within, counting, ← sum, UInt64.ofNat_toNat]

/-- What does not fit is refused, if the sum is a machine word. -/
theorem reserve?_of_not_fits (h : ¬Reservation.Fits ledger.nodesUsed.toNat ⟨nodes, budget⟩)
    (small : ledger.nodesUsed.toNat + nodes.toNat < UInt64.size) : ledger.reserve? nodes budget = .ok none := by
  have beyond : ledger.nodesUsed + nodes > budget := by
    rw [gt_iff_lt, UInt64.lt_iff_toNat_lt, UInt64.toNat_add, Nat.mod_eq_of_lt small]
    exact Nat.not_le.1 h
  rw [reserve?, if_neg (Nat.not_le.2 small), if_pos beyond]

/-- There is no answer if the sum is no machine word. -/
theorem reserve?_of_size_le (h : UInt64.size ≤ ledger.nodesUsed.toNat + nodes.toNat) :
    ledger.reserve? nodes budget = .error .countOverflow := if_pos h

/-- A reservation is granted exactly if it fits, and then it is counted. -/
theorem reserve?_eq_some_iff : ledger.reserve? nodes budget = .ok (some after) ↔
    Reservation.Fits ledger.nodesUsed.toNat ⟨nodes, budget⟩ ∧
      after = ledger.counting (ledger.nodesUsed.toNat + nodes.toNat) := by
  by_cases fits : Reservation.Fits ledger.nodesUsed.toNat ⟨nodes, budget⟩
  · simp [reserve?_of_fits fits, fits, eq_comm]
  · by_cases small : ledger.nodesUsed.toNat + nodes.toNat < UInt64.size
    · simp [reserve?_of_not_fits fits small, fits]
    · simp [reserve?_of_size_le (Nat.not_lt.1 small), fits]

/-- A reservation is refused exactly if it does not fit and its sum is a machine word. -/
theorem reserve?_eq_none_iff : ledger.reserve? nodes budget = .ok none ↔
    ¬Reservation.Fits ledger.nodesUsed.toNat ⟨nodes, budget⟩ ∧ ledger.nodesUsed.toNat + nodes.toNat < UInt64.size := by
  by_cases fits : Reservation.Fits ledger.nodesUsed.toNat ⟨nodes, budget⟩
  · simp [reserve?_of_fits fits, fits]
  · by_cases small : ledger.nodesUsed.toNat + nodes.toNat < UInt64.size
    · simp only [reserve?_of_not_fits fits small, fits, small, not_false_eq_true, and_self]
    · simp only [reserve?_of_size_le (Nat.not_lt.1 small), small, reduceCtorEq, and_false]

/-- There is no answer exactly if the sum is no machine word. -/
theorem reserve?_eq_error_iff : ledger.reserve? nodes budget = .error v ↔
    UInt64.size ≤ ledger.nodesUsed.toNat + nodes.toNat ∧ v = .countOverflow := by
  constructor
  · intro h
    obtain rfl := eq_countOverflow_of_reserve? h
    refine ⟨Nat.not_lt.1 fun small => ?_, rfl⟩
    by_cases fits : Reservation.Fits ledger.nodesUsed.toNat ⟨nodes, budget⟩
    · rw [reserve?_of_fits fits] at h
      cases h
    · rw [reserve?_of_not_fits fits small] at h
      cases h
  · rintro ⟨large, rfl⟩
    exact reserve?_of_size_le large

/-! ### Reservations one after the other -/

/-- What the ledger answers to some reservations one after the other, and what it is in the end. A reservation that is
refused leaves it as it is. -/
def reserveAll (ledger : Ledger V) : List Reservation → Checked (List Bool × Ledger V)
  | [] => .ok ([], ledger)
  | r :: rs => do
    let granted ← ledger.reserve? r.nodes r.budget
    let (answers, last) ← (granted.getD ledger).reserveAll rs
    return (granted.isSome :: answers, last)

/-- If the sum is a machine word, the ledger judges the reservation as the account does, and goes on with its count. -/
theorem reserveAll_cons {r : Reservation} {rs : List Reservation}
    (small : ledger.nodesUsed.toNat + r.nodes.toNat < UInt64.size) :
    ledger.reserveAll (r :: rs) =
      ((ledger.counting (r.spent ledger.nodesUsed.toNat)).reserveAll rs).map
        fun later => (decide (r.Fits ledger.nodesUsed.toNat) :: later.1, later.2) := by
  rw [reserveAll]
  by_cases fits : r.Fits ledger.nodesUsed.toNat
  · rw [reserve?_of_fits fits, Reservation.spent_of_fits fits, decide_eq_true fits]
    rfl
  · rw [reserve?_of_not_fits fits small, Reservation.spent_of_not_fits fits, decide_eq_false fits, counting_self]
    rfl

/-- What the account has counted is a machine word if the sum is one. -/
theorem toNat_nodesUsed_spent {r : Reservation} (small : ledger.nodesUsed.toNat + r.nodes.toNat < UInt64.size) :
    (ledger.counting (r.spent ledger.nodesUsed.toNat)).nodesUsed.toNat = r.spent ledger.nodesUsed.toNat := by
  refine toNat_nodesUsed_counting ?_
  unfold Reservation.spent
  split
  · exact small
  · exact ledger.nodesUsed.toNat_lt

/-- While sums are machine words, the ledger answers and counts as the account does. -/
theorem reserveAll_of_countable {rs : List Reservation} (h : Reservation.Countable ledger.nodesUsed.toNat rs) :
    ∃ last, ledger.reserveAll rs = .ok (Reservation.verdicts ledger.nodesUsed.toNat rs, last) ∧
      last = ledger.counting (Reservation.spentOn ledger.nodesUsed.toNat rs) ∧
        last.nodesUsed.toNat = Reservation.spentOn ledger.nodesUsed.toNat rs := by
  induction rs generalizing ledger with
  | nil => exact ⟨ledger, rfl, ledger.counting_self.symm, rfl⟩
  | cons r rs ih =>
    obtain ⟨small, rest⟩ := h
    have count := toNat_nodesUsed_spent small
    obtain ⟨last, answered, same, counted⟩ := ih (by rwa [count])
    rw [count] at answered same counted
    refine ⟨last, ?_, same, counted⟩
    rw [reserveAll_cons small, answered]
    rfl

/-- A sum that is no machine word leaves the ledger without an answer. -/
theorem reserveAll_of_not_countable {rs : List Reservation} (h : ¬Reservation.Countable ledger.nodesUsed.toNat rs) :
    ledger.reserveAll rs = .error .countOverflow := by
  induction rs generalizing ledger with
  | nil => exact absurd trivial h
  | cons r rs ih =>
    by_cases small : ledger.nodesUsed.toNat + r.nodes.toNat < UInt64.size
    · have rest : ¬Reservation.Countable (ledger.counting (r.spent ledger.nodesUsed.toNat)).nodesUsed.toNat rs := by
        rw [toNat_nodesUsed_spent small]
        exact fun countable => h ⟨small, countable⟩
      rw [reserveAll_cons small, ih rest]
      rfl
    · rw [reserveAll, reserve?_of_size_le (Nat.not_lt.1 small)]
      rfl

/-- There are answers exactly if all sums are machine words, and then they are those of the account. -/
theorem reserveAll_eq_ok_iff {rs : List Reservation} {answers : List Bool} {last : Ledger V} :
    ledger.reserveAll rs = .ok (answers, last) ↔
      Reservation.Countable ledger.nodesUsed.toNat rs ∧ answers = Reservation.verdicts ledger.nodesUsed.toNat rs ∧
        last = ledger.counting (Reservation.spentOn ledger.nodesUsed.toNat rs) ∧
          last.nodesUsed.toNat = Reservation.spentOn ledger.nodesUsed.toNat rs := by
  constructor
  · intro answered
    by_cases countable : Reservation.Countable ledger.nodesUsed.toNat rs
    · obtain ⟨last', answered', same, counted⟩ := reserveAll_of_countable countable
      obtain ⟨rfl, rfl⟩ := Prod.mk.inj (Except.ok.inj (answered.symm.trans answered'))
      exact ⟨countable, rfl, same, counted⟩
    · cases answered.symm.trans (reserveAll_of_not_countable countable)
  · rintro ⟨countable, rfl, rfl, -⟩
    obtain ⟨last, answered, rfl, -⟩ := reserveAll_of_countable countable
    exact answered

/-- There are no answers exactly if some sum is no machine word. -/
theorem reserveAll_eq_error_iff {rs : List Reservation} : ledger.reserveAll rs = .error v ↔
    ¬Reservation.Countable ledger.nodesUsed.toNat rs ∧ v = .countOverflow := by
  constructor
  · intro failed
    by_cases countable : Reservation.Countable ledger.nodesUsed.toNat rs
    · obtain ⟨last, answered, -⟩ := reserveAll_of_countable countable
      cases failed.symm.trans answered
    · exact ⟨countable, Except.error.inj (failed.symm.trans (reserveAll_of_not_countable countable))⟩
  · rintro ⟨uncountable, rfl⟩
    exact reserveAll_of_not_countable uncountable

/-! ### The budget -/

/-- **The ledger counts exactly.** A reservation is granted exactly if it is within its budget, and then just its operations
are counted. It is refused exactly if it is not within its budget and its sum is a machine word; if the sum is none, there
is no answer. So reservations one after the other are answered and counted as by an account with numbers of any size,
exactly if all sums that come up are machine words. With one budget for all reservations it is not exceeded. -/
theorem reservations_add_up (ledger : Ledger V) :
    (∀ (r : Reservation) (after : Ledger V), ledger.reserve? r.nodes r.budget = .ok (some after) ↔
      r.Fits ledger.nodesUsed.toNat ∧ after = ledger.counting (ledger.nodesUsed.toNat + r.nodes.toNat) ∧
        after.nodesUsed.toNat = ledger.nodesUsed.toNat + r.nodes.toNat) ∧
    (∀ r : Reservation, ledger.reserve? r.nodes r.budget = .ok none ↔
      ¬r.Fits ledger.nodesUsed.toNat ∧ ledger.nodesUsed.toNat + r.nodes.toNat < UInt64.size) ∧
    (∀ (r : Reservation) (v : Violation), ledger.reserve? r.nodes r.budget = .error v ↔
      UInt64.size ≤ ledger.nodesUsed.toNat + r.nodes.toNat ∧ v = .countOverflow) ∧
    (∀ (rs : List Reservation) (answers : List Bool) (last : Ledger V), ledger.reserveAll rs = .ok (answers, last) ↔
      Reservation.Countable ledger.nodesUsed.toNat rs ∧ answers = Reservation.verdicts ledger.nodesUsed.toNat rs ∧
        last = ledger.counting (Reservation.spentOn ledger.nodesUsed.toNat rs) ∧
          last.nodesUsed.toNat = Reservation.spentOn ledger.nodesUsed.toNat rs) ∧
    (∀ (rs : List Reservation) (v : Violation), ledger.reserveAll rs = .error v ↔
      ¬Reservation.Countable ledger.nodesUsed.toNat rs ∧ v = .countOverflow) ∧
    ∀ (budget : UInt64) (rs : List Reservation) (answers : List Bool) (last : Ledger V),
      ledger.nodesUsed ≤ budget → (∀ r ∈ rs, r.budget = budget) → ledger.reserveAll rs = .ok (answers, last) →
        last.nodesUsed ≤ budget := by
  refine ⟨fun r after => ?_, fun r => reserve?_eq_none_iff, fun r v => reserve?_eq_error_iff,
    fun rs answers last => reserveAll_eq_ok_iff, fun rs v => reserveAll_eq_error_iff, ?_⟩
  · rw [reserve?_eq_some_iff]
    refine and_congr_right fun fits => ⟨?_, And.left⟩
    rintro rfl
    exact ⟨rfl, toNat_nodesUsed_counting fits.lt_size⟩
  · intro budget rs answers last start one answered
    rw [UInt64.le_iff_toNat_le, (reserveAll_eq_ok_iff.1 answered).2.2.2]
    exact Reservation.spentOn_le one (UInt64.le_iff_toNat_le.1 start)

namespace Reservations

/-- Some operations within a budget of ten. -/
def ofTen (nodes : UInt64) : Reservation := ⟨nodes, 10⟩

/-- The greatest number of a machine word. -/
def greatest : UInt64 := 18446744073709551615

end Reservations

open Reservations in
/-- Five and five operations are within ten, and none of six and one. -/
theorem reservations_add_up_ten : ∃ last : Ledger Taint,
    (start false).reserveAll [ofTen 5, ofTen 6, ofTen 5, ofTen 1] = .ok ([true, false, true, false], last) ∧
      last.nodesUsed.toNat = 10 ∧ last.nodesUsed ≤ 10 := by
  obtain ⟨-, -, -, answers, -, bounded⟩ := reservations_add_up (start false : Ledger Taint)
  have answered := (answers [ofTen 5, ofTen 6, ofTen 5, ofTen 1] [true, false, true, false] _).2
    ⟨⟨by decide, by decide, by decide, by decide, trivial⟩, rfl, rfl, rfl⟩
  exact ⟨_, answered, rfl, bounded 10 _ _ _ (by decide) (by decide) answered⟩

open Reservations in
/-- When as many operations are reserved as a machine word can count, one more does not fit, and is not refused either. -/
theorem not_refused_uncountable :
    Reservation.verdicts 0 [⟨greatest, greatest⟩, ⟨1, greatest⟩] = [true, false] ∧
      (start false : Ledger Taint).reserveAll [⟨greatest, greatest⟩, ⟨1, greatest⟩] = .error .countOverflow :=
  ⟨by decide, rfl⟩

end Ledger

end Dataflow
