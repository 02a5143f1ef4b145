import Dataflow.Graph.Basic

/-!
# The rules for block lists

A block list has to keep nine rules to become a graph. Here each of them is stated by itself, with what is reported of a
list that breaks it, and the checks of `Graph.fault?` are compared with that.

## The notions

* `Graph.Rule.Kept`: a block list keeps a rule.
* `Graph.Rule.Reports`: what is reported of a block list that breaks a rule. It names the first culprit if there may be
  several.
* `Graph.Rule.FirstBroken`: a block list breaks a rule and keeps those before it.

## What is proved

The checks report what `Rule.Reports` asks of the first rule that is broken (`Graph.fault?_eq_some_iff`), and nothing exactly
if all rules are kept (`Graph.fault?_eq_none_iff`).
-/

namespace Dataflow

theorem BlockId.toNat_inj {i j : BlockId} : i.toNat = j.toNat ↔ i = j := by
  cases i
  cases j
  simp [BlockId.toNat, UInt64.toNat_inj]

namespace Graph

/-- The rules for block lists. -/
inductive Rule where
  /-- There is a block. -/
  | nonempty
  /-- Every block names its own position. -/
  | placed
  /-- The first block is an entry. -/
  | entry
  /-- No other block is an entry. -/
  | oneEntry
  /-- Some block is an exit. -/
  | exit
  /-- No two blocks are exits. -/
  | oneExit
  /-- Every branch leads to a block. -/
  | closed
  /-- No branch leads to the first block. -/
  | notEntered
  /-- No branch leaves an exit. -/
  | notLeft
  deriving DecidableEq

/-- All branches of a block list, block by block: where they start and where they lead. -/
def edges (blocks : List Block) : List (BlockId × BlockId) :=
  blocks.flatMap fun b => b.branches.map fun e => (b.id, e.destination)

namespace Rule

/-- The rules in the order in which they are checked. -/
def all : List Rule := [nonempty, placed, entry, oneEntry, exit, oneExit, closed, notEntered, notLeft]

/-- The block list keeps the rule. -/
def Kept (blocks : List Block) : Rule → Prop
  | nonempty => blocks ≠ []
  | placed => ∀ (i : Nat) (b : Block), blocks[i]? = some b → b.id.toNat = i
  | entry => ∃ b, blocks[0]? = some b ∧ b.isEntry = true
  | oneEntry => ∀ (i : Nat) (b : Block), blocks[i]? = some b → b.isEntry = true → i = 0
  | exit => ∃ b ∈ blocks, b.isExit = true
  | oneExit => ∀ (i j : Nat) (b c : Block), blocks[i]? = some b → blocks[j]? = some c → b.isExit = true → c.isExit = true →
      i = j
  | closed => ∀ b ∈ blocks, ∀ e ∈ b.branches, e.destination.toNat < blocks.length
  | notEntered => ∀ b ∈ blocks, ∀ e ∈ b.branches, e.destination.toNat ≠ 0
  | notLeft => ∀ b ∈ blocks, b.isExit = true → b.branches = []

/-- What is reported of a block list that breaks the rule: the first block that does not name its position, the first
branch that leads nowhere, and in all other cases just that the rule is broken. -/
def Reports (blocks : List Block) : Rule → GraphError → Prop
  | nonempty, e => e = .empty
  | placed, e => ∃ before b after, blocks = before ++ b :: after ∧
      (∀ (i : Nat) (c : Block), before[i]? = some c → c.id.toNat = i) ∧ b.id.toNat ≠ before.length ∧
        e = .misplaced before.length b.id
  | entry, e => e = .missingEntry
  | oneEntry, e => e = .duplicateEntry
  | exit, e => e = .missingExit
  | oneExit, e => e = .duplicateExit
  | closed, e => ∃ before x after, edges blocks = before ++ x :: after ∧ (∀ y ∈ before, y.2.toNat < blocks.length) ∧
      blocks.length ≤ x.2.toNat ∧ e = .dangling x.1 x.2
  | notEntered, e => e = .entered
  | notLeft, e => e = .left

/-- The block list breaks the rule and keeps all that are checked before. -/
def FirstBroken (blocks : List Block) (r : Rule) : Prop :=
  ∃ before after, all = before ++ r :: after ∧ (∀ q ∈ before, q.Kept blocks) ∧ ¬r.Kept blocks

/-! ### Checks of single rules -/

/-- The check of a rule by itself. -/
def complaint? (blocks : List Block) : Rule → Option GraphError
  | nonempty => if blocks.isEmpty then some .empty else none
  | placed => misplaced? 0 blocks
  | entry => if !blocks.head?.any (·.isEntry) then some .missingEntry else none
  | oneEntry => if blocks.tail.any (·.isEntry) then some .duplicateEntry else none
  | exit => if !blocks.any (·.isExit) then some .missingExit else none
  | oneExit => if 1 < (blocks.filter (·.isExit)).length then some .duplicateExit else none
  | closed => dangling? blocks
  | notEntered => if blocks.any fun b => b.successors.any (·.toNat = 0) then some .entered else none
  | notLeft => if blocks.any fun b => b.isExit && !b.branches.isEmpty then some .left else none

end Rule

/-- The first block that does not name its position is found. -/
theorem misplaced?_eq_some_iff {l : List Block} {n : Nat} {e : GraphError} :
    misplaced? n l = some e ↔ ∃ before b after, l = before ++ b :: after ∧
      (∀ (i : Nat) (c : Block), before[i]? = some c → c.id.toNat = n + i) ∧ b.id.toNat ≠ n + before.length ∧
        e = .misplaced (n + before.length) b.id := by
  induction l generalizing n with
  | nil => simp [misplaced?]
  | cons c l ih =>
    rw [misplaced?]
    split
    · rename_i here
      rw [ih]
      constructor
      · rintro ⟨before, b, after, rfl, placed, wrong, rfl⟩
        refine ⟨c :: before, b, after, rfl, fun i d hd => ?_, ?_, ?_⟩
        · cases i with
          | zero =>
            obtain rfl := Option.some.inj hd
            exact here
          | succ i => rw [placed i d hd]; omega
        · rw [List.length_cons]; omega
        · rw [List.length_cons]; congr 1; omega
      · rintro ⟨before, b, after, split, placed, wrong, rfl⟩
        cases before with
        | nil =>
          obtain ⟨rfl, rfl⟩ := List.cons_eq_cons.1 split
          exact absurd here wrong
        | cons _ before =>
          obtain ⟨rfl, rfl⟩ := List.cons_eq_cons.1 split
          refine ⟨before, b, after, rfl, fun i d hd => ?_, ?_, ?_⟩
          · rw [placed (i + 1) d hd]; omega
          · rw [List.length_cons] at wrong; omega
          · rw [List.length_cons]; congr 1; omega
    · rename_i wrong
      constructor
      · intro h
        exact ⟨[], c, l, rfl, by simp, wrong, (Option.some.inj h).symm⟩
      · rintro ⟨before, b, after, split, placed, -, rfl⟩
        cases before with
        | nil =>
          obtain ⟨rfl, -⟩ := List.cons_eq_cons.1 split
          rfl
        | cons d before =>
          obtain ⟨rfl, -⟩ := List.cons_eq_cons.1 split
          exact absurd (placed 0 c rfl) wrong

/-- Blocks that do not name their own position are found. -/
theorem misplaced?_eq_none {l : List Block} {n : Nat} (h : misplaced? n l = none) :
    ∀ i b, l[i]? = some b → b.id.toNat = n + i := by
  induction l generalizing n with
  | nil => simp
  | cons c l ih =>
    rw [misplaced?] at h
    split at h
    · rename_i hc
      intro i b hb
      cases i with
      | zero =>
        simp only [List.getElem?_cons_zero, Option.some.injEq] at hb
        rw [← hb]
        exact hc
      | succ i =>
        rw [List.getElem?_cons_succ] at hb
        have := ih h i b hb
        omega
    · cases h

/-- The first branch that leads nowhere is found. -/
theorem dangling?_eq_some_iff {blocks : List Block} {e : GraphError} :
    dangling? blocks = some e ↔ Rule.closed.Reports blocks e := by
  rw [dangling?, ← edges, Option.map_eq_some_iff]
  simp only [List.find?_eq_some_iff_append, Rule.Reports]
  constructor
  · rintro ⟨x, ⟨out, before, after, split, inside⟩, rfl⟩
    exact ⟨before, x, after, split, fun y hy => by simpa using inside y hy, by simpa using out, rfl⟩
  · rintro ⟨before, x, after, split, inside, out, rfl⟩
    exact ⟨x, ⟨by simpa using out, before, after, split, fun y hy => by simpa using inside y hy⟩, rfl⟩

/-- The first block is the only entry if the others are none. -/
theorem Rule.kept_oneEntry {blocks : List Block} :
    oneEntry.Kept blocks ↔ ∀ b ∈ blocks.tail, b.isEntry = false := by
  constructor
  · intro one b hb
    obtain ⟨i, hi⟩ := List.mem_iff_getElem?.1 hb
    rw [List.getElem?_tail] at hi
    exact Bool.eq_false_iff.2 fun entry => absurd (one (i + 1) b hi entry) (Nat.succ_ne_zero i)
  · intro others i b hb entry
    cases i with
    | zero => rfl
    | succ i =>
      rw [← List.getElem?_tail] at hb
      rw [others b (List.mem_of_getElem? hb)] at entry
      cases entry

/-- No two blocks are exits if there are not two in the list of exits. -/
theorem Rule.kept_oneExit {blocks : List Block} :
    oneExit.Kept blocks ↔ (blocks.filter (·.isExit)).length ≤ 1 := by
  have lonely (l : List Block) : l.length ≤ 1 ↔ l.Pairwise fun _ _ => False := by
    match l with
    | [] => simp
    | [_] => simp
    | _ :: _ :: _ => exact ⟨by simp, fun none => (List.rel_of_pairwise_cons none List.mem_cons_self).elim⟩
  rw [lonely, List.pairwise_filter, List.pairwise_iff_getElem]
  constructor
  · intro one i j hi hj lt hb hc
    exact absurd (one i j _ _ (List.getElem?_eq_getElem hi) (List.getElem?_eq_getElem hj) hb hc) (Nat.ne_of_lt lt)
  · intro lonely i j b c hb hc exitB exitC
    obtain ⟨hi, rfl⟩ := List.getElem?_eq_some_iff.1 hb
    obtain ⟨hj, rfl⟩ := List.getElem?_eq_some_iff.1 hc
    rcases Nat.lt_trichotomy i j with lt | same | lt
    · exact (lonely i j hi hj lt exitB exitC).elim
    · exact same
    · exact (lonely j i hj hi lt exitC exitB).elim

/-- The check of a rule reports what is to be reported, if the rule is broken. -/
theorem Rule.complaint?_eq_some_iff {blocks : List Block} {r : Rule} {e : GraphError} :
    r.complaint? blocks = some e ↔ ¬r.Kept blocks ∧ r.Reports blocks e := by
  have single {broken kept : Prop} [Decidable broken] {x : GraphError} (h : broken ↔ ¬kept) :
      (if broken then some x else none) = some e ↔ ¬kept ∧ e = x := by
    rw [Option.ite_none_right_eq_some, h, Option.some.injEq, eq_comm (a := x)]
  cases r with
  | nonempty => exact single (by simp [Kept])
  | placed =>
    rw [complaint?, misplaced?_eq_some_iff]
    simp only [Nat.zero_add]
    refine ⟨fun h => ⟨fun placed => ?_, h⟩, And.right⟩
    obtain ⟨before, b, after, rfl, -, wrong, -⟩ := h
    exact wrong (placed before.length b (by simp))
  | entry => exact single (by cases blocks <;> simp [Kept])
  | oneEntry => exact single (by rw [kept_oneEntry]; simp)
  | exit => exact single (by simp [Kept])
  | oneExit => exact single (by rw [kept_oneExit]; simp)
  | closed =>
    rw [complaint?, dangling?_eq_some_iff]
    refine ⟨fun h => ⟨fun closed => ?_, h⟩, And.right⟩
    obtain ⟨before, x, after, split, -, out, -⟩ := h
    have mem : x ∈ edges blocks := split ▸ List.mem_append_right _ List.mem_cons_self
    obtain ⟨b, hb, hx⟩ := List.mem_flatMap.1 mem
    obtain ⟨e, he, rfl⟩ := List.mem_map.1 hx
    exact absurd (closed b hb e he) (Nat.not_lt.2 out)
  | notEntered => exact single (by simp [Kept, Block.successors])
  | notLeft => exact single (by simp [Kept])

/-- The check of a rule reports nothing if the rule is kept. -/
theorem Rule.complaint?_eq_none_iff {blocks : List Block} {r : Rule} : r.complaint? blocks = none ↔ r.Kept blocks := by
  constructor
  · intro silent
    cases r with
    | placed => exact fun i b hb => (misplaced?_eq_none silent i b hb).trans (Nat.zero_add i)
    | closed =>
      intro b hb e he
      rw [complaint?, dangling?, Option.map_eq_none_iff, List.find?_eq_none] at silent
      simpa using silent (b.id, e.destination) (List.mem_flatMap.2 ⟨b, hb, List.mem_map.2 ⟨e, he, rfl⟩⟩)
    | nonempty | entry | oneEntry | exit | oneExit | notEntered | notLeft =>
      refine Classical.byContradiction fun broken => ?_
      cases silent.symm.trans (complaint?_eq_some_iff.2 ⟨broken, rfl⟩)
  · intro kept
    cases h : r.complaint? blocks with
    | none => rfl
    | some e => exact absurd kept (complaint?_eq_some_iff.1 h).1

/-! ### All checks -/

/-- The branches of the exit are those that leave exits. -/
theorem any_isExit_and (blocks : List Block) : (blocks.any fun b => b.isExit && !b.branches.isEmpty) =
    (blocks.filter (·.isExit)).any fun b => !b.branches.isEmpty :=
  List.any_filter.symm

theorem any_isExit (blocks : List Block) : blocks.any (·.isExit) = !(blocks.filter (·.isExit)).isEmpty := by
  rw [Bool.eq_iff_iff]
  simp

/-- The checks go through the rules and report the first one that is broken. -/
theorem fault?_eq_findSome? (blocks : List Block) : fault? blocks = Rule.all.findSome? (Rule.complaint? blocks) := by
  cases blocks with
  | nil => rfl
  | cons first others =>
    simp only [fault?, Rule.all, List.findSome?_cons, List.findSome?_nil, Rule.complaint?, any_isExit_and, any_isExit]
    generalize (first :: others).filter (·.isExit) = exits
    cases placed : misplaced? 0 (first :: others) with
    | some e => simp
    | none =>
      -- The branches to the first block are compared with the position that it names.
      have start (i : BlockId) : i = first.id ↔ i.toNat = 0 := by
        rw [← BlockId.toNat_inj, misplaced?_eq_none placed 0 first rfl]
      simp only [start]
      cases entry : first.isEntry with
      | false => simp [entry]
      | true =>
        cases oneEntry : others.any (·.isEntry) with
        | true => simp [entry, oneEntry]
        | false =>
          rcases exits with _ | ⟨exit, _ | ⟨_, _⟩⟩
          · simp [entry, oneEntry]
          · cases dangling? (first :: others) with
            | some e => simp [entry, oneEntry]
            | none =>
              cases (first :: others).any fun b => b.successors.any (·.toNat = 0) with
              | true => simp [entry, oneEntry]
              | false => cases last : exit.branches <;> simp [entry, oneEntry, last]
          · simp [entry, oneEntry]

/-- What is reported of a block list: the first rule that it breaks. -/
theorem fault?_eq_some_iff {blocks : List Block} {e : GraphError} :
    fault? blocks = some e ↔ ∃ r, Rule.FirstBroken blocks r ∧ r.Reports blocks e := by
  rw [fault?_eq_findSome?, List.findSome?_eq_some_iff]
  constructor
  · rintro ⟨before, r, after, split, found, kept⟩
    obtain ⟨broken, reports⟩ := Rule.complaint?_eq_some_iff.1 found
    exact ⟨r, ⟨before, after, split, fun q hq => Rule.complaint?_eq_none_iff.1 (kept q hq), broken⟩, reports⟩
  · rintro ⟨r, ⟨before, after, split, kept, broken⟩, reports⟩
    exact ⟨before, r, after, split, Rule.complaint?_eq_some_iff.2 ⟨broken, reports⟩,
      fun q hq => Rule.complaint?_eq_none_iff.2 (kept q hq)⟩

theorem Rule.mem_all (r : Rule) : r ∈ all := by
  cases r <;> simp [all]

/-- A block list without fault keeps all rules. -/
theorem fault?_eq_none_iff {blocks : List Block} : fault? blocks = none ↔ ∀ r, Rule.Kept blocks r := by
  rw [fault?_eq_findSome?, List.findSome?_eq_none_iff]
  exact ⟨fun silent r => Rule.complaint?_eq_none_iff.1 (silent r r.mem_all),
    fun kept r _ => Rule.complaint?_eq_none_iff.2 (kept r)⟩

end Graph

end Dataflow
