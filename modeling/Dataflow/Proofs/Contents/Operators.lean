import Dataflow.Proofs.Lattice.Semilattice
import Mathlib.Data.List.ProdSigma

/-!
# Operators on literal content

An operator works on the literals that two contents list, each of the one with each of the other. It may have no result
on two literals, and there may be too many pairs.

## The notions

* `BinaryOperator.onIntegers?`: what an operator computes with integers that have no bound.
* `Content.IsResult`: the results of an operator on the literals of two contents.
* `Content.Evaluates`: the pairs of literals are few, and the operator has a result on each of them.

## What is proved

What an operator makes of two contents is given by one equation (`Content.binary_eq`): exactly the results if they can
all be had, and any content otherwise. From that follows the rest (`Content.binary_exact`). No result is missed, an
integer is never one that was reduced to 64 bits, and more literals never make a smaller result.
-/

namespace Dataflow

/-! ### Literals -/

/-- What the operator computes with integers that have no bound. -/
def BinaryOperator.onIntegers? : BinaryOperator → Option (Int → Int → Int)
  | add => some (· + ·)
  | subtract => some (· - ·)
  | multiply => some (· * ·)
  | equals | notEquals | concatenate => none

/-- A literal stands for an integer if it is that one. -/
theorem Literal.ofInt?_eq_some_iff {k : Int} {x : Literal} :
    ofInt? k = some x ↔ ∃ n : Int64, x = .integer n ∧ n.toInt = k := by
  unfold ofInt?
  constructor
  · intro h
    split at h
    · rename_i fits
      obtain rfl := Option.some.inj h
      rw [Int64.toInt_minValue, Int64.toInt_maxValue] at fits
      exact ⟨_, rfl, Int64.toInt_ofInt_of_le fits.1 (by omega)⟩
    · cases h
  · rintro ⟨n, rfl, rfl⟩
    rw [if_pos ⟨n.minValue_le_toInt, n.toInt_le⟩, n.ofInt_toInt]

/-- There is no literal for an integer that 64 bits do not hold. -/
theorem Literal.ofInt?_eq_none_iff {k : Int} : ofInt? k = none ↔ ∀ n : Int64, n.toInt ≠ k := by
  rw [Option.eq_none_iff_forall_ne_some]
  constructor
  · exact fun h n hn => h (.integer n) (ofInt?_eq_some_iff.2 ⟨n, rfl, hn⟩)
  · intro h x hx
    obtain ⟨n, -, hn⟩ := ofInt?_eq_some_iff.1 hx
    exact h n hn

namespace BinaryOperator

variable {operator : BinaryOperator} {f : Int → Int → Int} {l r : Literal}

theorem evaluate?_integer (h : operator.onIntegers? = some f) (i j : Int64) :
    operator.evaluate? (.integer i) (.integer j) = Literal.ofInt? (f i.toInt j.toInt) := by
  cases operator with
  | add | subtract | multiply =>
    cases h
    rfl
  | equals | notEquals | concatenate => cases h

/-- An integer is the result of computing with integers, and it is what that comes to without a bound. -/
theorem exists_of_evaluate?_eq_integer {n : Int64} (h : operator.evaluate? l r = some (.integer n)) :
    ∃ f i j, operator.onIntegers? = some f ∧ l = .integer i ∧ r = .integer j ∧ n.toInt = f i.toInt j.toInt := by
  have computed {k : Int} (hk : Literal.ofInt? k = some (.integer n)) : n.toInt = k := by
    obtain ⟨n', same, value⟩ := Literal.ofInt?_eq_some_iff.1 hk
    cases same
    exact value
  unfold evaluate? at h
  split at h
  case h_1 | h_2 | h_6 | h_7 => cases Option.some.inj h
  case h_3 | h_4 | h_5 => exact ⟨_, _, _, rfl, rfl, rfl, computed h⟩
  case h_8 => cases h

end BinaryOperator

namespace Content

variable {operator : BinaryOperator} {a b c a' b' : Content} {x : Literal}

/-! ### The results -/

/-- The operator has the literal as its result on a literal of each content. -/
def IsResult (operator : BinaryOperator) (a b : Content) (x : Literal) : Prop :=
  ∃ l ∈ a.literals, ∃ r ∈ b.literals, operator.evaluate? l r = some x

/-- Both contents are always literals, there are few pairs of these, and the operator has a result on each pair. -/
structure Evaluates (operator : BinaryOperator) (a b : Content) : Prop where
  left : a.isLiteral = true
  right : b.isLiteral = true
  few : a.literals.size * b.literals.size ≤ literalCap
  defined : ∀ l ∈ a.literals, ∀ r ∈ b.literals, (operator.evaluate? l r).isSome = true

/-- The results of the operator on the literals of two contents. -/
def resultSet (operator : BinaryOperator) (a b : Content) : FinSet Literal :=
  FinSet.ofList ((a.literals.toList ×ˢ b.literals.toList).filterMap fun e => operator.evaluate? e.1 e.2)

theorem mem_resultSet : x ∈ resultSet operator a b ↔ IsResult operator a b x := by
  simp [resultSet, IsResult, and_assoc]

/-- There are no more results than pairs. -/
theorem size_resultSet_le (operator : BinaryOperator) (a b : Content) :
    (resultSet operator a b).size ≤ a.literals.size * b.literals.size := by
  have listed : (resultSet operator a b).toList ⊆
      (a.literals.toList ×ˢ b.literals.toList).filterMap fun e => operator.evaluate? e.1 e.2 := fun x hx =>
    FinSet.mem_ofList.1 (FinSet.mem_toList.1 hx)
  calc (resultSet operator a b).size
      ≤ _ := (FinSet.nodup_toList _).length_le_of_subset listed
    _ ≤ (a.literals.toList ×ˢ b.literals.toList).length := List.length_filterMap_le _ _
    _ = a.literals.size * b.literals.size := List.length_product _ _

/-- Content that is always a literal lists one. -/
theorem exists_mem_of_isLiteral (h : a.isLiteral = true) : ∃ l, l ∈ a.literals := by
  unfold isLiteral at h
  rw [Bool.and_eq_true, Bool.not_eq_true'] at h
  obtain ⟨l, hl⟩ := List.exists_mem_of_ne_nil a.literals.toList fun nil => by simp [FinSet.isEmpty, nil] at h
  exact ⟨l, FinSet.mem_toList.1 hl⟩

theorem state_of_isLiteral (h : a.isLiteral = true) : a.state = .no := by
  unfold isLiteral at h
  exact eq_of_beq (Bool.and_eq_true .. ▸ h).1

/-- What can be evaluated has a result. -/
theorem Evaluates.exists_mem (h : Evaluates operator a b) : ∃ x, x ∈ resultSet operator a b := by
  obtain ⟨l, hl⟩ := exists_mem_of_isLiteral h.left
  obtain ⟨r, hr⟩ := exists_mem_of_isLiteral h.right
  obtain ⟨x, hx⟩ := Option.isSome_iff_exists.1 (h.defined l hl r hr)
  exact ⟨x, mem_resultSet.2 ⟨l, hl, r, hr, hx⟩⟩

/-! ### The operator -/

/-- A computation succeeds on all elements if it does on each of them. -/
theorem mapM_eq_ite {α β : Type} (f : α → Option β) (l : List α) :
    l.mapM f = if ∀ x ∈ l, (f x).isSome = true then some (l.filterMap f) else none := by
  induction l with
  | nil => rfl
  | cons x l ih =>
    rw [List.mapM_cons, ih]
    cases hx : f x with
    | none => simp [hx]
    | some y =>
      by_cases rest : ∀ x ∈ l, (f x).isSome = true
      · have all : ∀ z ∈ x :: l, (f z).isSome = true := List.forall_mem_cons.2 ⟨by rw [hx]; rfl, rest⟩
        rw [if_pos rest, if_pos all, List.filterMap_cons_some hx]
        rfl
      · rw [if_neg rest, if_neg fun all => rest (List.forall_mem_cons.1 all).2]
        rfl

/-- The results can all be had if the operator has one on each pair. -/
theorem results?_eq (operator : BinaryOperator) (left right : List Literal) : results? operator left right =
    if ∀ l ∈ left, ∀ r ∈ right, (operator.evaluate? l r).isSome = true
    then some ((left ×ˢ right).filterMap fun e => operator.evaluate? e.1 e.2) else none := by
  have pairs : (left.flatMap fun l => right.map fun r => (l, r)) = left ×ˢ right := rfl
  rw [results?, pairs, mapM_eq_ite]
  refine if_congr ?_ rfl rfl
  simp only [List.mem_product, Prod.forall, and_imp]
  exact ⟨fun h l hl r hr => h l r hl hr, fun h l r hl hr => h l hl r hr⟩

instance (operator : BinaryOperator) (a b : Content) : Decidable (Evaluates operator a b) :=
  decidable_of_iff (a.isLiteral = true ∧ b.isLiteral = true ∧ a.literals.size * b.literals.size ≤ literalCap ∧
    ∀ l ∈ a.literals.toList, ∀ r ∈ b.literals.toList, (operator.evaluate? l r).isSome = true)
    ⟨fun ⟨left, right, few, defined⟩ => ⟨left, right, few, fun l hl r hr =>
      defined l (FinSet.mem_toList.2 hl) r (FinSet.mem_toList.2 hr)⟩,
     fun h => ⟨h.left, h.right, h.few, fun l hl r hr =>
      h.defined l (FinSet.mem_toList.1 hl) r (FinSet.mem_toList.1 hr)⟩⟩

/-- The operator yields exactly its results if they can all be had, and any content otherwise. -/
theorem binary_eq (operator : BinaryOperator) (a b : Content) : binary operator a b =
    .ok (if Evaluates operator a b then ⟨resultSet operator a b, .no⟩ else any) := by
  unfold binary
  split
  · rename_i other
    rw [if_neg fun h => by simp [h.left, h.right] at other]
  · rename_i literals
    rw [Bool.or_eq_true, not_or, Bool.not_eq_true', Bool.not_eq_true', Bool.not_eq_false, Bool.not_eq_false] at literals
    split
    · rename_i many
      rw [if_neg fun h => Nat.not_lt.2 h.few many]
    · rename_i few
      rw [results?_eq]
      by_cases defined : ∀ l ∈ a.literals.toList, ∀ r ∈ b.literals.toList, (operator.evaluate? l r).isSome = true
      · have evaluates : Evaluates operator a b := ⟨literals.1, literals.2, Nat.le_of_not_lt few, fun l hl r hr =>
          defined l (FinSet.mem_toList.2 hl) r (FinSet.mem_toList.2 hr)⟩
        rw [if_pos defined, if_pos evaluates]
        show ofLiterals (resultSet operator a b) .no = _
        have small : ¬ (resultSet operator a b).size > literalCap :=
          Nat.not_lt.2 (Nat.le_trans (size_resultSet_le operator a b) evaluates.few)
        obtain ⟨x, hx⟩ := evaluates.exists_mem
        have listed : (resultSet operator a b).isEmpty = false := by
          rw [Bool.eq_false_iff, Ne, FinSet.isEmpty_iff]
          intro empty
          exact FinSet.not_mem_empty x (empty ▸ hx)
        rw [ofLiterals, if_neg small, listed]
        rfl
      · rw [if_neg defined, if_neg fun h => defined fun l hl r hr =>
          h.defined l (FinSet.mem_toList.1 hl) r (FinSet.mem_toList.1 hr)]

/-- Whatever the operator yields covers all results. -/
theorem mem_or_maybe_of_isResult (h : binary operator a b = .ok c) (hx : IsResult operator a b x) :
    x ∈ c.literals ∨ c.state = .maybe := by
  rw [binary_eq] at h
  obtain rfl := Except.ok.inj h
  split
  · exact .inl (mem_resultSet.2 hx)
  · exact .inr rfl

/-- Only results are listed. -/
theorem isResult_of_mem (h : binary operator a b = .ok c) (hx : x ∈ c.literals) : IsResult operator a b x := by
  rw [binary_eq] at h
  obtain rfl := Except.ok.inj h
  split at hx
  · exact mem_resultSet.1 hx
  · exact absurd hx (FinSet.not_mem_empty x)

/-! ### More literals -/

/-- What is at most some content that is always a literal has its literals among those. -/
theorem subset_of_atMost (hb : b.isLiteral = true) (h : AtMost merge a b) : ∀ x ∈ a.literals, x ∈ b.literals := by
  intro x hx
  rw [atMost_iff_of_merge_self (merge_self b)] at h
  by_cases same : a = b
  · exact same ▸ hx
  · rcases merge_of_ne same with any | ⟨-, -, union⟩
    · rw [any] at h
      have state := state_of_isLiteral hb
      rw [← h] at state
      cases state
    · rw [union] at h
      rw [← h]
      exact FinSet.mem_union.2 (.inl hx)

/-- Some of the literals of a small content are at most that content. -/
theorem atMost_of_subset {s t : FinSet Literal} (small : t.size ≤ literalCap) (h : ∀ x ∈ s, x ∈ t) :
    AtMost merge ⟨s, .no⟩ ⟨t, .no⟩ := by
  have union : t.union s = t := FinSet.ext fun x => by
    rw [FinSet.mem_union]
    exact ⟨fun hx => hx.elim id (h x), .inl⟩
  rw [atMost_iff_of_merge_self (merge_self _), merge_comm]
  exact merge_eq_left union rfl NonLiteral.noConfusion small

/-- What can be evaluated on more literals can be on fewer. -/
theorem Evaluates.mono (h : Evaluates operator a' b') (ha : a.isLiteral = true) (hb : b.isLiteral = true)
    (left : ∀ x ∈ a.literals, x ∈ a'.literals) (right : ∀ x ∈ b.literals, x ∈ b'.literals) : Evaluates operator a b where
  left := ha
  right := hb
  few := by
    have size {s t : FinSet Literal} (sub : ∀ x ∈ s, x ∈ t) : s.size ≤ t.size :=
      s.nodup_toList.length_le_of_subset fun x hx => FinSet.mem_toList.2 (sub x (FinSet.mem_toList.1 hx))
    exact Nat.le_trans (Nat.mul_le_mul (size left) (size right)) h.few
  defined l hl r hr := h.defined l (left l hl) r (right r hr)

/-- More literals make no smaller result. -/
theorem binary_mono (ha : a.isLiteral = true) (ha' : a'.isLiteral = true) (hb : b.isLiteral = true)
    (hb' : b'.isLiteral = true) (left : AtMost merge a a') (right : AtMost merge b b') (h : binary operator a b = .ok c) :
    ∃ c', binary operator a' b' = .ok c' ∧ AtMost merge c c' := by
  refine ⟨_, binary_eq operator a' b', ?_⟩
  rw [binary_eq] at h
  obtain rfl := Except.ok.inj h
  have subLeft := subset_of_atMost ha' left
  have subRight := subset_of_atMost hb' right
  by_cases evaluates : Evaluates operator a' b'
  · rw [if_pos evaluates, if_pos (evaluates.mono ha hb subLeft subRight)]
    refine atMost_of_subset (Nat.le_trans (size_resultSet_le operator a' b') evaluates.few) fun x hx => ?_
    obtain ⟨l, hl, r, hr, value⟩ := mem_resultSet.1 hx
    exact mem_resultSet.2 ⟨l, subLeft l hl, r, subRight r hr, value⟩
  · rw [if_neg evaluates, atMost_iff_of_merge_self (merge_self any)]
    exact merge_any _

/-- **Operators are exact on literals or give up.** If both contents are always literals, if there are few pairs of these
and if the operator has a result on each pair, then it yields exactly the results. Otherwise it yields any content. So

* every result on literals of the two contents is covered;
* an integer that is listed is what the operator computes without a bound from two integers that the contents list;
* if 64 bits do not hold what it computes from two such integers, then it yields any content;
* on contents that are always literals it is monotone in both. -/
theorem binary_exact (operator : BinaryOperator) (a b : Content) : ∃ c, binary operator a b = .ok c ∧
    (Evaluates operator a b → c.state = .no ∧ ∀ x, x ∈ c.literals ↔ IsResult operator a b x) ∧
    (¬ Evaluates operator a b → c = any) ∧
    (∀ x, IsResult operator a b x → x ∈ c.literals ∨ c.state = .maybe) ∧
    (∀ n, .integer n ∈ c.literals → ∃ f i j, operator.onIntegers? = some f ∧ .integer i ∈ a.literals ∧
      .integer j ∈ b.literals ∧ n.toInt = f i.toInt j.toInt) ∧
    (∀ f i j, operator.onIntegers? = some f → .integer i ∈ a.literals → .integer j ∈ b.literals →
      (∀ n : Int64, n.toInt ≠ f i.toInt j.toInt) → c = any) ∧
    (∀ a' b', a.isLiteral = true → a'.isLiteral = true → b.isLiteral = true → b'.isLiteral = true → AtMost merge a a' →
      AtMost merge b b' → ∃ c', binary operator a' b' = .ok c' ∧ AtMost merge c c') := by
  have eq := binary_eq operator a b
  refine ⟨_, eq, fun evaluates => ?_, fun vague => if_neg vague, fun x hx => mem_or_maybe_of_isResult eq hx,
    fun n hn => ?_, fun f i j computes hi hj overflows => ?_, fun a' b' ha ha' hb hb' left right =>
      binary_mono ha ha' hb hb' left right eq⟩
  · rw [if_pos evaluates]
    exact ⟨rfl, fun x => mem_resultSet⟩
  · obtain ⟨l, hl, r, hr, value⟩ := isResult_of_mem eq hn
    obtain ⟨f, i, j, computes, rfl, rfl, exact⟩ := BinaryOperator.exists_of_evaluate?_eq_integer value
    exact ⟨f, i, j, computes, hl, hr, exact⟩
  · refine if_neg fun evaluates => ?_
    have defined := evaluates.defined _ hi _ hj
    rw [BinaryOperator.evaluate?_integer computes, Literal.ofInt?_eq_none_iff.2 overflows] at defined
    cases defined

/-- Twice the greatest integer is none that 64 bits hold. -/
theorem binary_exact_overflow :
    binary .multiply (ofLiteral (.integer Int64.maxValue)) (ofLiteral (.integer 2)) = .ok any := by
  obtain ⟨c, eq, -, -, -, -, overflows, -⟩ :=
    binary_exact .multiply (ofLiteral (.integer Int64.maxValue)) (ofLiteral (.integer 2))
  have large : ∀ n : Int64, n.toInt ≠ Int64.maxValue.toInt * (2 : Int64).toInt := fun n => by
    have bound := n.toInt_lt
    have two : (2 : Int64).toInt = 2 := by decide
    rw [Int64.toInt_maxValue, two]
    omega
  rw [eq, overflows _ _ _ rfl (FinSet.mem_singleton.2 rfl) (FinSet.mem_singleton.2 rfl) large]

end Content

end Dataflow
