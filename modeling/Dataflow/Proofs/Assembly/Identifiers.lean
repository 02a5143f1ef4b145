import Dataflow.Proofs.Assembly.Drafts
import Dataflow.Proofs.Operation.Subtree
import Mathlib.Data.List.Flatten
import Mathlib.Data.List.GetD

/-!
# Identifiers at the bench

An operation gets the number of operations made before it as its identifier. It is made of operations that were there
already, so identifiers grow from the inside of a tree to the outside. Every operation is either loose, or an operand of one
operation, or part of one body, if none is used twice.

## The notions

* `Workbench.Stocked`: so many operations were made.
* `Workbench.loose`, `Workbench.placed`: the operations that were not used so far, and those that stand for themselves in
  bodies. Together they are the roots of all trees at the bench (`Workbench.roots`).

## What is proved

What is nested in an operation has a smaller identifier (`Workbench.Stocked.ascends`). An operation that is made takes its
operands from the roots and becomes one itself, so one identifier is added to those in the trees
(`Workbench.idsIn_roots_make`); an operation that is put into a body stays a root (`Workbench.roots_place`).
-/

namespace Dataflow

open scoped List

namespace Operation

/-- What is nested in the operation has smaller identifiers. -/
def Ascends (op : Operation) : Prop := ∀ o ∈ subtrees op.operands, o.id.number < op.id.number

theorem idsIn_perm {ops ops' : List Operation} (h : ops ~ ops') : idsIn ops ~ idsIn ops' :=
  (h.flatMap_right _).map _

theorem idsIn_sublist {ops ops' : List Operation} (h : ops <+ ops') : idsIn ops <+ idsIn ops' :=
  (h.flatMap _).map _

/-- Trees with distinct identifiers still have them if some trees are taken away and the others are moved. -/
theorem nodup_idsIn_of_subperm {ops ops' : List Operation} (h : ops <+~ ops') (nodup : (idsIn ops').Nodup) :
    (idsIn ops).Nodup := by
  obtain ⟨l, perm, sublist⟩ := h
  exact (idsIn_perm perm).nodup_iff.1 (nodup.sublist (idsIn_sublist sublist))

end Operation

namespace Assembly

open Operation

/-! ### Numbers that were not used -/

/-- The numbers up to a bound that are not used. -/
def spare (n : Nat) (used : List Nat) : List Nat := (List.range n).filter (· ∉ used)

theorem mem_spare {n i : Nat} {used : List Nat} : i ∈ spare n used ↔ i < n ∧ i ∉ used := by
  rw [spare, List.mem_filter, List.mem_range, decide_eq_true_iff]

/-- Numbers that are used are no longer spare. -/
theorem spare_use {n : Nat} {used new : List Nat} (once : (used ++ new).Nodup) (there : ∀ i ∈ new, i < n) :
    spare n used ~ new ++ spare n (used ++ new) := by
  have nodup (l : List Nat) : (spare n l).Nodup := List.nodup_range.filter _
  obtain ⟨-, nodup_new, apart⟩ := List.nodup_append.1 once
  refine (List.perm_ext_iff_of_nodup (nodup used) (List.nodup_append.2 ⟨nodup_new, nodup _, ?_⟩)).2 fun i => ?_
  · rintro i hi j hj rfl
    exact (mem_spare.1 hj).2 (List.mem_append_right _ hi)
  · rw [List.mem_append, mem_spare, mem_spare, List.mem_append]
    constructor
    · rintro ⟨lt, unused⟩
      by_cases hi : i ∈ new
      · exact .inl hi
      · exact .inr ⟨lt, fun h => h.elim unused hi⟩
    · rintro (hi | ⟨lt, unused⟩)
      · exact ⟨there i hi, fun h => apart i h i hi rfl⟩
      · exact ⟨lt, fun h => unused (.inl h)⟩

/-- A new number is spare. -/
theorem spare_succ {n : Nat} {used : List Nat} (there : ∀ i ∈ used, i < n) : spare (n + 1) used = spare n used ++ [n] := by
  have new : n ∉ used := fun h => Nat.lt_irrefl n (there n h)
  rw [spare, List.range_succ, List.filter_append, List.filter_singleton, decide_eq_true new]
  rfl

namespace Workbench

variable {w : Workbench} {n : Nat}

/-! ### What was made -/

/-- So many operations were made. -/
structure Stocked (w : Workbench) (n : Nat) : Prop where
  /-- The next one gets their number. -/
  next : w.supply.nextId.toNat = n
  /-- They are all there. -/
  size : w.operations.length = n
  /-- Each has its number as its identifier. -/
  numbered : ∀ (i : Nat) (op : Operation), w.operations[i]? = some op → op.id.number.toNat = i
  /-- Each is made of some that were there before. -/
  operands : ∀ op ∈ w.operations, ∀ o ∈ op.operands, o ∈ w.operations ∧ o.id.number < op.id.number

theorem stocked_empty : empty.Stocked 0 where
  next := rfl
  size := rfl
  numbered _ _ h := by cases h
  operands _ h := by cases h

theorem getElem?_operation {i : Nat} (hi : i < w.operations.length) : w.operations[i]? = some (w.operation i) := by
  rw [operation, List.getElem?_eq_getElem hi, List.getD_eq_getElem _ _ hi]

theorem operation_mem {i : Nat} (hi : i < w.operations.length) : w.operation i ∈ w.operations :=
  List.mem_of_getElem? (getElem?_operation hi)

theorem Stocked.id_lt (h : w.Stocked n) {op : Operation} (hop : op ∈ w.operations) : op.id.number.toNat < n := by
  obtain ⟨i, hi⟩ := List.mem_iff_getElem?.1 hop
  rw [h.numbered i op hi, ← h.size]
  exact (List.getElem?_eq_some_iff.1 hi).1

theorem take_make (w : Workbench) (part : Part Nat) : ∃ op supply,
    w.take (.make part) = some ⟨supply, w.operations ++ [op], w.bodies⟩ ∧ op.id = ⟨w.supply.nextId⟩ ∧
      op.operands = part.operands.map w.operation ∧ supply.nextId = w.supply.nextId + 1 := by
  obtain ⟨id, operands, next⟩ := (part.map w.operation).make_spec w.supply
  exact ⟨_, _, rfl, id, operands.trans (part.operands_map _), next⟩

/-- The next operation gets the number of those that are there. -/
theorem Stocked.make (h : w.Stocked n) (room : n + 1 < UInt32.size) {op : Operation} {supply : OperationSupply} {new : List Nat}
    (there : ∀ i ∈ new, i < n) (id : op.id = ⟨w.supply.nextId⟩) (operands : op.operands = new.map w.operation)
    (next : supply.nextId = w.supply.nextId + 1) :
    op.id.number.toNat = n ∧ Stocked ⟨supply, w.operations ++ [op], w.bodies⟩ (n + 1) := by
  have number : op.id.number.toNat = n := by rw [id, h.next]
  refine ⟨number, ?_, ?_, fun i o ho => ?_, fun a ha o ho => ?_⟩
  · show supply.nextId.toNat = n + 1
    rw [next, UInt32.toNat_add, h.next]
    exact Nat.mod_eq_of_lt room
  · rw [List.length_append, h.size]
    rfl
  · rcases getElem?_concat_cases ho with there | ⟨rfl, rfl⟩
    · exact h.numbered i o there
    · rw [h.size, number]
  · rcases List.mem_append.1 ha with ha | ha
    · obtain ⟨made, lt⟩ := h.operands a ha o ho
      exact ⟨List.mem_append_left _ made, lt⟩
    · obtain rfl := List.mem_singleton.1 ha
      rw [operands] at ho
      obtain ⟨i, hi, rfl⟩ := List.mem_map.1 ho
      have made := operation_mem (h.size.symm ▸ there i hi)
      rw [UInt32.lt_iff_toNat_lt, number]
      exact ⟨List.mem_append_left _ made, h.id_lt made⟩

/-- What occurs in operations that were made was made. -/
theorem Stocked.subtrees_subset (h : w.Stocked n) {ops : List Operation} (hops : ∀ o ∈ ops, o ∈ w.operations) :
    ∀ o ∈ subtrees ops, o ∈ w.operations := by
  intro o ho
  obtain ⟨op, hop, ho⟩ := List.mem_flatMap.1 ho
  have made := hops op hop
  clear hop
  induction op using operandInduction with
  | h op ih =>
    rw [subtree_eq] at ho
    rcases List.mem_append.1 ho with ho | ho
    · obtain ⟨a, ha, hoa⟩ := List.mem_flatMap.1 ho
      exact ih a ha hoa (h.operands op made a ha).1
    · rwa [List.mem_singleton.1 ho]

theorem Stocked.idsIn_lt (h : w.Stocked n) {ops : List Operation} (hops : ∀ o ∈ ops, o ∈ w.operations) :
    ∀ i ∈ idsIn ops, i.number.toNat < n := by
  intro i hi
  obtain ⟨o, ho, rfl⟩ := List.mem_map.1 hi
  exact h.id_lt (h.subtrees_subset hops o ho)

/-- What is nested in an operation that was made has smaller identifiers. -/
theorem Stocked.ascends (h : w.Stocked n) {op : Operation} (made : op ∈ w.operations) : op.Ascends := by
  induction op using operandInduction with
  | h op ih =>
    intro o ho
    obtain ⟨a, ha, hoa⟩ := List.mem_flatMap.1 ho
    obtain ⟨made_a, lt⟩ := h.operands op made a ha
    rw [subtree_eq] at hoa
    rcases List.mem_append.1 hoa with hoa | hoa
    · exact UInt32.lt_trans (ih a ha made_a o hoa) lt
    · rwa [List.mem_singleton.1 hoa]

/-! ### The trees at the bench -/

/-- The operations that were not used so far. -/
def loose (w : Workbench) (used : List Nat) : List Operation := (spare w.operations.length used).map w.operation

/-- The operations that stand for themselves in bodies. -/
def placed (w : Workbench) : List Operation := w.bodies.flatMap (·.operations)

/-- The operations that are operands of none. -/
def roots (w : Workbench) (used : List Nat) : List Operation := w.loose used ++ w.placed

variable {w' : Workbench} {used new : List Nat}

theorem roots_subset (used : List Nat) (placed : ∀ o ∈ w.placed, o ∈ w.operations) :
    ∀ o ∈ w.roots used, o ∈ w.operations := by
  intro o ho
  rcases List.mem_append.1 ho with ho | ho
  · obtain ⟨i, hi, rfl⟩ := List.mem_map.1 ho
    exact operation_mem (mem_spare.1 hi).1
  · exact placed o ho

/-- Operations that are used next are loose until then. -/
theorem roots_use (once : (used ++ new).Nodup) (there : ∀ i ∈ new, i < w.operations.length) :
    w.roots used ~ new.map w.operation ++ w.roots (used ++ new) := by
  rw [roots, roots, loose, loose, ← List.append_assoc, ← List.map_append]
  exact ((spare_use once there).map _).append_right _

/-- Operations that are put into bodies are no more than they were before. -/
theorem roots_place (once : (used ++ new).Nodup) (there : ∀ i ∈ new, i < w.operations.length)
    (operations : w'.operations = w.operations) (placed : w'.placed <+~ new.map w.operation ++ w.placed) :
    w'.roots (used ++ new) <+~ w.roots used := by
  have loose : w'.loose (used ++ new) = w.loose (used ++ new) := by
    unfold Workbench.loose operation
    rw [operations]
  refine List.Subperm.trans ?_ (roots_use once there).symm.subperm
  rw [roots, roots, loose]
  exact ((List.subperm_append_left _).2 placed).trans (List.perm_append_comm_assoc _ _ _).subperm

/-- An operation that is made takes its operands with it, and adds its own identifier. -/
theorem idsIn_roots_make {op : Operation} (once : (used ++ new).Nodup)
    (there : ∀ i ∈ used ++ new, i < w.operations.length) (operations : w'.operations = w.operations ++ [op])
    (bodies : w'.bodies = w.bodies) (operands : op.operands = new.map w.operation) :
    idsIn (w'.roots (used ++ new)) ~ op.id :: idsIn (w.roots used) := by
  have kept : ∀ i ∈ spare w.operations.length (used ++ new), w'.operation i = w.operation i := by
    intro i hi
    rw [operation, operation, operations, List.getD_append _ _ _ _ (mem_spare.1 hi).1]
  have added : w'.operation w.operations.length = op := by
    rw [operation, operations, List.getD_append_right _ _ _ _ (Nat.le_refl _), Nat.sub_self]
    rfl
  have loose : w'.loose (used ++ new) = w.loose (used ++ new) ++ [op] := by
    unfold Workbench.loose
    rw [operations, List.length_append, List.length_singleton, spare_succ there, List.map_append,
      List.map_congr_left kept, List.map_singleton, added]
  have roots : w'.roots (used ++ new) ~ op :: w.roots (used ++ new) := by
    rw [Workbench.roots, Workbench.roots, loose, placed, placed, bodies, List.append_assoc]
    exact List.perm_middle
  -- The operands were roots, so their identifiers are only moved.
  have given := roots_use once fun i hi => there i (List.mem_append_right _ hi)
  rw [← operands] at given
  refine (idsIn_perm roots).trans (.trans ?_ ((idsIn_perm given).symm.cons _))
  rw [idsIn_cons, map_id_subtree, idsIn_append, List.append_assoc]
  exact List.perm_middle

end Workbench

end Assembly

end Dataflow
