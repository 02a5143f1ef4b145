import Dataflow.Analysis.Context
import Mathlib.Data.List.Perm.Basic

/-!
# What is in a ledger

A ledger counts the operations of callees and keeps their solutions in two tables. A solution is filed
once its callee was analysed, and operations are claimed before that.

## The notions

* `Filing`: under what a solution is filed, in either table.
* `Ledger.filings`, `Ledger.filedOperations`: under what there are solutions, and how many operations
  their bodies have.

## What is proved

Claiming operations changes nothing but the count, exactly and within the budget
(`Ledger.reserved`). A new solution adds one filing to those that there are, and its operations to those of
all solutions (`Filing.filings_store`, `Filing.filedOperations_store`).
-/

namespace Dataflow

variable {V : Type}

/-- Inserting an element with a new key adds it to the list. -/
theorem Ascending.insert_perm {α γ : Type} [Ord α] {key : γ → α} {x : γ} {l : List γ}
    (h : Ascending.find? key (key x) l = none) : (Ascending.insert key x l).Perm (x :: l) := by
  induction l with
  | nil => exact .refl _
  | cons y l ih =>
    rw [find?, List.find?_cons] at h
    split at h
    · cases h
    · unfold insert
      split
      · exact .refl _
      · simp_all
      · exact ((ih h).cons y).trans (.swap _ _ _)

theorem mem_of_lookup {α β : Type} [DecidableEq α] {k : α} {v : β} {l : List (α × β)} (h : l.lookup k = some v) :
    (k, v) ∈ l := by
  obtain ⟨before, after, rfl, -⟩ := List.lookup_eq_some_iff.1 h
  exact List.mem_append_right _ List.mem_cons_self

/-- The number of operations of the body, as a machine word counts them. -/
def Solution.operations (sol : Solution V) : Nat := (UInt64.ofNat sol.graph.operationCount).toNat

namespace Ledger

variable {ledger ledger' : Ledger V} {nodes budget : UInt64} {v : Violation}

/-- What holds of all solutions that are filed. -/
def Files (P : Solution V → Prop) (ledger : Ledger V) : Prop :=
  (∀ e ∈ ledger.contextual, P e.2) ∧ ∀ method sol, ledger.summaries.find? method = some sol → P sol

theorem files_start (P : Solution V → Prop) (cancelled : Bool) : (start cancelled).Files P :=
  ⟨fun _ h => (List.not_mem_nil h).elim, fun _ _ h => by simp [start] at h⟩

/-- All solutions that are filed. -/
def solutions (ledger : Ledger V) : List (Solution V) := ledger.summaries.values ++ ledger.contextual.map (·.2)

/-- The operations of all callees whose solutions are filed. -/
def filedOperations (ledger : Ledger V) : Nat := ledger.solutions.foldr (fun sol n => sol.operations + n) 0

/-! ### Claiming operations -/

theorem eq_countOverflow_of_reserve? (h : ledger.reserve? nodes budget = .error v) : v = .countOverflow := by
  unfold reserve? at h
  split at h
  · exact (Except.error.inj h).symm
  · split at h <;> cases h

theorem eq_of_reserve? (h : ledger.reserve? nodes budget = .ok (some ledger')) :
    ledger' = { ledger with nodesUsed := ledger.nodesUsed + nodes } := by
  unfold reserve? at h
  split at h
  · cases h
  · split at h
    · cases h
    · exact (Option.some.inj (Except.ok.inj h)).symm

theorem cancelled_of_reserve? (h : ledger.reserve? nodes budget = .ok (some ledger')) :
    ledger'.cancelled = ledger.cancelled := by rw [eq_of_reserve? h]

/-- The new count is exact, and within the budget. -/
theorem reserved (h : ledger.reserve? nodes budget = .ok (some ledger')) :
    ledger'.nodesUsed.toNat = ledger.nodesUsed.toNat + nodes.toNat ∧ ledger'.nodesUsed ≤ budget := by
  obtain rfl := eq_of_reserve? h
  unfold reserve? at h
  split at h
  · cases h
  · split at h
    · cases h
    · rename_i fits within
      refine ⟨?_, UInt64.not_lt.1 within⟩
      rw [UInt64.toNat_add]
      exact Nat.mod_eq_of_lt (Nat.lt_of_not_le fits)

end Ledger

/-! ### Filing solutions -/

/-- Under what the solution of a callee is filed. -/
inductive Filing (V : Type) where
  /-- For all calls of a method. -/
  | summary (method : Symbol)
  /-- In a context. -/
  | inContext (key : CallKey V)
  deriving DecidableEq

/-- Under what there is a solution. -/
def Ledger.filings (ledger : Ledger V) : List (Filing V) :=
  ledger.summaries.entries.map (.summary ·.1) ++ ledger.contextual.map (.inContext ·.1)

namespace Filing

variable {ledger : Ledger V} {f : Filing V}

theorem summary_mem {method : Symbol} : .summary method ∈ ledger.filings ↔ (ledger.summary? method).isSome = true := by
  simp only [Ledger.filings, Ledger.summary?, List.mem_append, List.mem_map, summary.injEq, reduceCtorEq, and_false,
    exists_false, or_false, Option.isSome_iff_exists]
  constructor
  · rintro ⟨⟨k, sol⟩, hmem, rfl⟩
    exact ⟨sol, FinMap.mem_entries.1 hmem⟩
  · rintro ⟨sol, h⟩
    exact ⟨(method, sol), FinMap.mem_entries.2 h, rfl⟩

theorem inContext_mem [DecidableEq V] {key : CallKey V} :
    .inContext key ∈ ledger.filings ↔ (ledger.inContext? key).isSome = true := by
  simp only [Ledger.filings, Ledger.inContext?, List.mem_append, List.mem_map, inContext.injEq, reduceCtorEq, and_false,
    exists_false, false_or, Option.isSome_iff_exists]
  constructor
  · rintro ⟨⟨k, sol⟩, hmem, rfl⟩
    cases h : ledger.contextual.lookup k with
    | some sol => exact ⟨sol, rfl⟩
    | none => exact absurd rfl (bne_iff_ne.1 (List.lookup_eq_none_iff.1 h _ hmem))
  · rintro ⟨sol, h⟩
    exact ⟨(key, sol), mem_of_lookup h, rfl⟩

/-- The solution that is filed. -/
def find? [DecidableEq V] (f : Filing V) (ledger : Ledger V) : Option (Solution V) :=
  match f with
  | summary method => ledger.summary? method
  | inContext key => ledger.inContext? key

/-- Files a solution. -/
def store (f : Filing V) (sol : Solution V) (ledger : Ledger V) : Ledger V :=
  match f with
  | summary method => ledger.storeSummary method sol
  | inContext key => ledger.storeInContext key sol

theorem find?_eq_none_iff [DecidableEq V] : f.find? ledger = none ↔ f ∉ ledger.filings := by
  cases f with
  | summary method => simp [find?, summary_mem]
  | inContext key => simp [find?, inContext_mem]

theorem nodesUsed_store (sol : Solution V) : (f.store sol ledger).nodesUsed = ledger.nodesUsed := by
  cases f <;> rfl

/-- The table of summaries gets one more entry. -/
theorem summaries_store {method : Symbol} (sol : Solution V) (h : .summary method ∉ ledger.filings) :
    (ledger.storeSummary method sol).summaries.entries.Perm ((method, sol) :: ledger.summaries.entries) := by
  refine Ascending.insert_perm ?_
  simpa [summary_mem, Ledger.summary?, FinMap.find?] using h

/-- What is said of all solutions is said of the one that is filed. -/
theorem of_find? [DecidableEq V] {P : Solution V → Prop} {sol : Solution V} (h : ledger.Files P)
    (hf : f.find? ledger = some sol) : P sol := by
  cases f with
  | summary method => exact h.2 method sol hf
  | inContext key => exact h.1 _ (mem_of_lookup hf)

theorem files_store {P : Solution V → Prop} {sol : Solution V} (h : ledger.Files P) (hsol : P sol) :
    (f.store sol ledger).Files P := by
  cases f with
  | summary method => exact ⟨h.1, fun method t ht => FinMap.find?_insert_ind ht hsol h.2⟩
  | inContext key =>
    refine ⟨fun e he => ?_, h.2⟩
    rcases List.mem_cons.1 he with rfl | he
    · exact hsol
    · exact h.1 e he

theorem filings_store (sol : Solution V) (h : f ∉ ledger.filings) :
    (f.store sol ledger).filings.Perm (f :: ledger.filings) := by
  cases f with
  | summary method => exact ((summaries_store sol h).map _).append_right _
  | inContext key => exact List.perm_middle

theorem solutions_store (sol : Solution V) (h : f ∉ ledger.filings) :
    (f.store sol ledger).solutions.Perm (sol :: ledger.solutions) := by
  cases f with
  | summary method => exact ((summaries_store sol h).map _).append_right _
  | inContext key => exact List.perm_middle

theorem filedOperations_store (sol : Solution V) (h : f ∉ ledger.filings) :
    (f.store sol ledger).filedOperations = sol.operations + ledger.filedOperations :=
  List.Perm.foldr_eq' (f := fun (sol : Solution V) n => sol.operations + n) (solutions_store sol h)
    (fun _ _ _ _ _ => Nat.add_left_comm _ _ _) 0

end Filing

end Dataflow
