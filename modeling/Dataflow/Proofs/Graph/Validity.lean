import Dataflow.Proofs.Graph.Rules

/-!
# What a valid graph is

`Graph.Valid` says that the check of the block list finds no fault, so that all rules are kept. Here it is said what that
means for the parts of a graph: every block is at the position that it names, the first block is the entry and no other
block is one, every branch leads to a block that exists, the predecessors of a block ascend, and one block is the exit.

## What is proved

A graph is made exactly of the block lists that keep all rules, and its parts are as they should be; of any other list the
first rule that it breaks is reported (`Graph.ofBlocks?_obeys_rules`).
-/

namespace Dataflow

namespace Graph

variable {g : Graph}

theorem Valid.kept (h : g.Valid) (r : Rule) : r.Kept g.blocks := fault?_eq_none_iff.1 h r

theorem mem_of_block? {i : BlockId} {b : Block} (hb : g.block? i = some b) : b ∈ g.blocks :=
  List.mem_of_getElem? hb

/-- The block at a position names it. -/
theorem Valid.id_of_block? (h : g.Valid) {i : BlockId} {b : Block} (hb : g.block? i = some b) : b.id = i :=
  BlockId.toNat_inj.1 (h.kept .placed _ _ hb)

/-- A block of the graph is found at the position that it names. -/
theorem Valid.block?_id (h : g.Valid) {b : Block} (hb : b ∈ g.blocks) : g.block? b.id = some b := by
  obtain ⟨i, hi⟩ := List.mem_iff_getElem?.1 hb
  rw [block?, h.kept .placed _ _ hi, hi]

/-- Blocks are told apart by their positions. -/
theorem Valid.id_inj (h : g.Valid) {b c : Block} (hb : b ∈ g.blocks) (hc : c ∈ g.blocks) (hid : b.id = c.id) : b = c := by
  have e := h.block?_id hb
  rw [hid, h.block?_id hc, Option.some.injEq] at e
  exact e.symm

/-- The entry is the first block. -/
theorem Valid.block?_entry (h : g.Valid) : ∃ b, g.block? entry = some b ∧ b.isEntry = true := h.kept .entry

/-- Only the block at the first position is an entry. -/
theorem Valid.isEntry_iff (h : g.Valid) {b : Block} (hb : b ∈ g.blocks) : b.isEntry = true ↔ b.id = entry := by
  constructor
  · intro he
    exact BlockId.toNat_inj.1 (h.kept .oneEntry _ _ (h.block?_id hb) he)
  · intro hid
    obtain ⟨first, hfirst, he⟩ := h.block?_entry
    rw [h.id_inj hb (mem_of_block? hfirst) (hid.trans (h.id_of_block? hfirst).symm)]
    exact he

/-- Every branch leads to a block. -/
theorem Valid.exists_of_mem_successors (h : g.Valid) {b : Block} (hb : b ∈ g.blocks) {i : BlockId}
    (hi : i ∈ b.successors) : ∃ c, g.block? i = some c := by
  obtain ⟨e, he, rfl⟩ := List.mem_map.1 hi
  exact ⟨_, List.getElem?_eq_getElem (h.kept .closed b hb e he)⟩

/-- No branch leads to the entry. -/
theorem Valid.isEntry_of_mem_successors (h : g.Valid) {b c : Block} (hb : b ∈ g.blocks) {i : BlockId}
    (hi : i ∈ b.successors) (hc : g.block? i = some c) : c.isEntry = false := by
  obtain ⟨e, he, rfl⟩ := List.mem_map.1 hi
  rw [Bool.eq_false_iff]
  intro entered
  have hid := (h.isEntry_iff (mem_of_block? hc)).1 entered
  rw [h.id_of_block? hc] at hid
  exact h.kept .notEntered b hb e he (congrArg BlockId.toNat hid)

theorem mem_successors {b : Block} {i j : BlockId} (hb : g.block? i = some b) :
    j ∈ g.successors i ↔ j ∈ b.successors := by
  simp [successors, hb]

/-- The predecessors of a block are the blocks with a branch to it. -/
theorem mem_predecessors {i j : BlockId} :
    j ∈ g.predecessors i ↔ ∃ b ∈ g.blocks, b.id = j ∧ i ∈ b.successors := by
  simp only [predecessors, List.mem_map, List.mem_filter, List.contains_iff_mem]
  constructor
  · rintro ⟨b, ⟨hb, hi⟩, rfl⟩
    exact ⟨b, hb, rfl, hi⟩
  · rintro ⟨b, hb, rfl, hi⟩
    exact ⟨b, ⟨hb, hi⟩, rfl⟩

/-- The blocks stand in the order of their identifiers. -/
theorem Valid.blocks_ascend (h : g.Valid) : g.blocks.Pairwise fun b c => b.id.toNat < c.id.toNat := by
  have placed := h.kept .placed
  rw [List.pairwise_iff_getElem]
  intro i j hi hj lt
  rw [placed i _ (List.getElem?_eq_getElem hi), placed j _ (List.getElem?_eq_getElem hj)]
  exact lt

/-- The predecessors of a block ascend, so each of them is listed once. -/
theorem Valid.predecessors_ascend (h : g.Valid) (i : BlockId) :
    (g.predecessors i).Pairwise fun j k => j.toNat < k.toNat :=
  List.pairwise_map.2 (h.blocks_ascend.filter _)

/-- The predecessors of a block are those with a branch to it. -/
theorem Valid.mem_predecessors_iff (h : g.Valid) {i j : BlockId} :
    j ∈ g.predecessors i ↔ ∃ b, g.block? j = some b ∧ i ∈ b.successors := by
  rw [mem_predecessors]
  constructor
  · rintro ⟨b, hb, rfl, branch⟩
    exact ⟨b, h.block?_id hb, branch⟩
  · rintro ⟨b, hb, branch⟩
    exact ⟨b, mem_of_block? hb, h.id_of_block? hb, branch⟩

/-- One block is an exit, and it is the one that is named. -/
theorem Valid.exit_spec (h : g.Valid) :
    ∃ b, g.block? g.exit = some b ∧ b.isExit = true ∧ ∀ c ∈ g.blocks, c.isExit = true → c = b := by
  obtain ⟨c, hc, exit⟩ := h.kept .exit
  cases found : g.blocks.find? (·.isExit) with
  | none => exact absurd exit (List.find?_eq_none.1 found c hc)
  | some b =>
    have hb := List.mem_of_find?_eq_some found
    have exitB : b.isExit = true := by simpa using List.find?_some found
    refine ⟨b, ?_, exitB, fun c hc exitC => ?_⟩
    · rw [Graph.exit, found]
      exact h.block?_id hb
    · have same := h.kept .oneExit _ _ c b (h.block?_id hc) (h.block?_id hb) exitC exitB
      exact h.id_inj hc hb (BlockId.toNat_inj.1 same)

/-- A graph is made of a block list exactly if the list keeps all rules. Otherwise the first rule that is broken is
reported. In the graph the predecessors of a block are listed once each, in ascending order, and the exit is the only block
of its kind. -/
theorem ofBlocks?_obeys_rules (owner : Symbol) (parameters : List Symbol) (blocks : List Block) :
    (ofBlocks? owner parameters blocks = .ok ⟨owner, parameters, blocks⟩ ↔ ∀ r, Rule.Kept blocks r) ∧
      (∀ e, ofBlocks? owner parameters blocks = .error e ↔ ∃ r, Rule.FirstBroken blocks r ∧ r.Reports blocks e) ∧
        ∀ g, ofBlocks? owner parameters blocks = .ok g → g = ⟨owner, parameters, blocks⟩ ∧
          (∀ i, (g.predecessors i).Pairwise (fun j k => j.toNat < k.toNat) ∧
            ∀ j, j ∈ g.predecessors i ↔ ∃ b, g.block? j = some b ∧ i ∈ b.successors) ∧
          ∃ b, g.block? g.exit = some b ∧ b.isExit = true ∧ ∀ c ∈ g.blocks, c.isExit = true → c = b := by
  have made : ofBlocks? owner parameters blocks = .ok ⟨owner, parameters, blocks⟩ ↔ fault? blocks = none := by
    cases h : fault? blocks <;> simp [ofBlocks?, h]
  have refused (e : GraphError) : ofBlocks? owner parameters blocks = .error e ↔ fault? blocks = some e := by
    cases h : fault? blocks <;> simp [ofBlocks?, h]
  refine ⟨made.trans fault?_eq_none_iff, fun e => (refused e).trans fault?_eq_some_iff, fun g hg => ?_⟩
  have valid := valid_of_ofBlocks? hg
  have same : g = ⟨owner, parameters, blocks⟩ := by
    cases h : fault? blocks with
    | none => exact (Except.ok.inj ((made.2 h).symm.trans hg)).symm
    | some e => cases ((refused e).2 h).symm.trans hg
  exact ⟨same, fun i => ⟨valid.predecessors_ascend i, fun j => valid.mem_predecessors_iff⟩, valid.exit_spec⟩

namespace Parallel

/-- The method. -/
def method : Symbol := Symbol.method "C" "M" none

/-- Two branches lead from the entry to a loop. -/
def doubled : List Block :=
  [⟨⟨0⟩, .entry, [], none, [⟨⟨2⟩, .whenTrue⟩, ⟨⟨2⟩, .whenFalse⟩], []⟩, ⟨⟨1⟩, .exit, [], none, [], []⟩,
    ⟨⟨2⟩, .block, [], none, [⟨⟨2⟩, .whenTrue⟩, ⟨⟨1⟩, .whenFalse⟩], []⟩]

/-- A branch leads to the first block, and a later one leads nowhere. -/
def broken : List Block :=
  [⟨⟨0⟩, .entry, [], none, [⟨⟨0⟩, .whenTrue⟩, ⟨⟨7⟩, .whenFalse⟩], []⟩, ⟨⟨1⟩, .exit, [], none, [], []⟩]

end Parallel

open Parallel in
/-- Of two branches to a block its predecessor is listed once. Of two broken rules the first one is reported. -/
theorem ofBlocks?_obeys_rules_parallel :
    (∃ g, ofBlocks? method [] doubled = .ok g ∧ (∀ r, Rule.Kept doubled r) ∧ g.predecessors ⟨2⟩ = [⟨0⟩, ⟨2⟩] ∧
      (g.predecessors ⟨2⟩).Pairwise (fun j k => j.toNat < k.toNat) ∧ g.exit = ⟨1⟩ ∧
        ∃ b, g.block? g.exit = some b ∧ b.isExit = true ∧ ∀ c ∈ g.blocks, c.isExit = true → c = b) ∧
      ofBlocks? method [] broken = .error (.dangling ⟨0⟩ ⟨7⟩) ∧
        ∃ r, Rule.FirstBroken broken r ∧ r.Reports broken (.dangling ⟨0⟩ ⟨7⟩) := by
  obtain ⟨made, -, graph⟩ := ofBlocks?_obeys_rules method [] doubled
  obtain ⟨-, refused, -⟩ := ofBlocks?_obeys_rules method [] broken
  have run : ofBlocks? method [] doubled = .ok ⟨method, [], doubled⟩ := rfl
  have stop : ofBlocks? method [] broken = .error (.dangling ⟨0⟩ ⟨7⟩) := rfl
  obtain ⟨-, predecessors, exit⟩ := graph _ run
  exact ⟨⟨_, run, made.1 run, rfl, (predecessors ⟨2⟩).1, rfl, exit⟩, stop, (refused _).1 stop⟩

end Graph

end Dataflow
