import Dataflow.Proofs.Assembly.Workbench
import Dataflow.Proofs.Graph.Rules
import Mathlib.Data.List.Perm.Subperm

/-!
# What edits make of a draft

A draft starts with an entry and an exit that nothing connects. An edit adds a block, or it changes the content of one block;
it never touches the names or the kinds of blocks that are there. So of the nine rules for block lists six are kept
whatever is done, and the other three depend on the edges only.

## The notions

* `GraphDraft.Shaped`: a draft has the blocks and the edges that some edits gave it.
* `GraphDraft.operations`, `Assembly.Body.operations`: the operations that stand for themselves.
* `Assembly.Body.after`: what edits leave of a draft: the draft, or what building it gave.

## What is proved

An edit whose block is there succeeds, and leaves the draft shaped with that edit, too; operations get in only from those
that it uses (`Assembly.Edit.exists_apply`). Building succeeds exactly if no edge leads to the entry or to a missing block,
or leaves the exit (`GraphDraft.Shaped.build_iff`).
-/

namespace Dataflow

open scoped List
open Assembly

/-- What is found in a list with one more element was there, or it is that element. -/
theorem getElem?_concat_cases {α : Type} {l : List α} {a b : α} {i : Nat} (h : (l ++ [a])[i]? = some b) :
    l[i]? = some b ∨ i = l.length ∧ b = a := by
  rcases Nat.lt_trichotomy i l.length with lt | rfl | gt
  · rw [List.getElem?_append_left lt] at h
    exact .inl h
  · rw [List.getElem?_concat_length] at h
    exact .inr ⟨rfl, (Option.some.inj h).symm⟩
  · rw [List.getElem?_eq_none (by rw [List.length_append]; exact gt)] at h
    cases h

/-- Exchanging an element of a list exchanges what it contributes. -/
theorem flatMap_subperm {α β : Type} {g : α → List β} {a a' : α} {new : List β} (h : g a' <+~ new ++ g a)
    {before after : List α} : (before ++ a' :: after).flatMap g <+~ new ++ (before ++ a :: after).flatMap g := by
  simp only [List.flatMap_append, List.flatMap_cons]
  have front (l : List β) : before.flatMap g ++ (l ++ after.flatMap g) ~ l ++ (before.flatMap g ++ after.flatMap g) :=
    List.perm_append_comm_assoc _ _ _
  have exchanged (l : List β) : g a' ++ l <+~ new ++ (g a ++ l) := by
    rw [← List.append_assoc]
    exact (List.subperm_append_right l).2 h
  exact (front _).subperm.trans ((exchanged _).trans ((List.subperm_append_left _).2 (front _).symm.subperm))

namespace GraphDraft

variable {d : GraphDraft} {es : List Edit} {b : BlockId} {f : Block → Block}

/-- The operations that stand for themselves, block by block. -/
def operations (d : GraphDraft) : List Operation := d.blocks.flatMap (·.allOperations)

/-- The kind of the block at a position. -/
def kindAt : Nat → BlockKind
  | 0 => .entry
  | 1 => .exit
  | _ + 2 => .block

/-- The draft has the blocks and the edges that it was given. -/
structure Shaped (d : GraphDraft) (es : List Edit) : Prop where
  /-- An entry, an exit, and what was added. -/
  size : d.blocks.length = 2 + es.countP (·.isAddBlock)
  /-- Every block names its position, and has the kind that belongs there. -/
  placed : ∀ (i : Nat) (b : Block), d.blocks[i]? = some b → b.id.toNat = i ∧ b.kind = kindAt i
  /-- The edges are those that were added. -/
  edges : ∀ x, x ∈ Graph.edges d.blocks ↔ x ∈ es.flatMap (·.edges)

theorem shaped_start (owner : Symbol) (parameters : List Symbol) : (start owner parameters).Shaped [] where
  size := rfl
  placed i b hb := by
    match i with
    | 0 | 1 =>
      obtain rfl := Option.some.inj hb
      exact ⟨rfl, rfl⟩
    | i + 2 => cases hb
  edges x := by simp [Graph.edges, start, Block.bare]

/-! ### Edits -/

/-- A block with the next name is added. -/
theorem Shaped.addBlock (h : d.Shaped es) (room : d.blocks.length < UInt64.size) :
    d.addBlock.Shaped (es ++ [.addBlock]) where
  size := by
    rw [GraphDraft.addBlock, List.length_append, h.size, List.countP_append]
    rfl
  placed i b hb := by
    rcases getElem?_concat_cases hb with there | ⟨rfl, rfl⟩
    · exact h.placed i b there
    · refine ⟨UInt64.toNat_ofNat_of_lt' room, ?_⟩
      obtain ⟨n, hn⟩ : ∃ n, d.blocks.length = n + 2 := ⟨_, h.size.trans (Nat.add_comm 2 _)⟩
      rw [hn]
      rfl
  edges x := by
    have bare : Graph.edges d.addBlock.blocks = Graph.edges d.blocks := by
      simp [Graph.edges, GraphDraft.addBlock, Block.bare]
    rw [bare, h.edges]
    simp [Edit.edges]

/-- Changes of blocks that add branches, and let no other operations in. -/
structure Fills (f : Block → Block) (branches : List Branch) (ops : List Operation) : Prop where
  /-- The name stays. -/
  id : ∀ c, (f c).id = c.id
  /-- The kind stays. -/
  kind : ∀ c, (f c).kind = c.kind
  /-- The branches are added. -/
  branches : ∀ c, (f c).branches = c.branches ++ branches
  /-- Operations are added or given up. -/
  operations : ∀ c, (f c).allOperations <+~ ops ++ c.allOperations

variable {branches : List Branch} {ops : List Operation}

/-- The edges after a change: those from before, and one for each branch that was added. -/
theorem Fills.mem_edges (fills : Fills f branches ops) {blocks : List Block} {i : Nat} {c : Block}
    (hc : blocks[i]? = some c) (x : BlockId × BlockId) :
    x ∈ Graph.edges (blocks.modify i f) ↔ x ∈ Graph.edges blocks ∨ x ∈ branches.map fun e => (c.id, e.destination) := by
  obtain ⟨hi, rfl⟩ := List.getElem?_eq_some_iff.1 hc
  obtain ⟨before, c, after, rfl, rfl, changed⟩ := List.exists_of_modify f hi
  rw [changed]
  simp only [Graph.edges, List.flatMap_append, List.flatMap_cons, fills.id, fills.branches, List.map_append,
    List.mem_append, List.getElem_append_right (Nat.le_refl _), Nat.sub_self, List.getElem_cons_zero]
  tauto

/-- A change of a block that is there adds edges to the draft. -/
theorem Shaped.change (h : d.Shaped es) {e : Edit} (fills : Fills f branches ops) (hb : b.toNat < d.blocks.length)
    (adds : e.isAddBlock = false) (edges : e.edges = branches.map fun x => (b, x.destination)) :
    ∃ d', d.change b f = .ok d' ∧ d'.Shaped (es ++ [e]) ∧ d'.operations <+~ ops ++ d.operations := by
  refine ⟨_, if_pos hb, ⟨?_, fun i a ha => ?_, fun x => ?_⟩, ?_⟩
  · rw [List.length_modify, h.size, List.countP_append, List.countP_singleton, adds]
    rfl
  · rw [List.getElem?_modify] at ha
    obtain ⟨c, hc, rfl⟩ := Option.map_eq_some_iff.1 ha
    have same : (if b.toNat = i then f c else c).id = c.id ∧ (if b.toNat = i then f c else c).kind = c.kind := by
      split
      · exact ⟨fills.id c, fills.kind c⟩
      · exact ⟨rfl, rfl⟩
    rw [same.1, same.2]
    exact h.placed i c hc
  · have hc := List.getElem?_eq_getElem hb
    have named := BlockId.toNat_inj.1 (h.placed _ _ hc).1
    rw [fills.mem_edges hc, named, ← edges, h.edges, List.flatMap_append, List.flatMap_singleton, List.mem_append]
  · obtain ⟨before, c, after, blocks, -, changed⟩ := List.exists_of_modify f hb
    rw [operations, operations, changed, blocks]
    exact flatMap_subperm (fills.operations c)

/-- An operation is added at the end of a block, before its condition. -/
theorem fills_push (op : Operation) : Fills (fun c => { c with operations := c.operations ++ [op] }) [] [op] where
  id _ := rfl
  kind _ := rfl
  branches c := (List.append_nil c.branches).symm
  operations c := by
    rw [Block.allOperations, List.append_assoc]
    exact (List.perm_append_comm_assoc _ _ _).subperm

theorem fills_goto (target : BlockId) : Fills (fun c => { c with branches := c.branches ++ [⟨target, .regular⟩] })
    [⟨target, .regular⟩] [] :=
  ⟨fun _ => rfl, fun _ => rfl, fun _ => rfl, fun _ => .refl _⟩

/-- The condition takes the place of another one. -/
theorem fills_branch (condition : Operation) (whenTrue whenFalse : BlockId) :
    Fills (fun c => { c with condition := some condition,
                             branches := c.branches ++ [⟨whenTrue, .whenTrue⟩, ⟨whenFalse, .whenFalse⟩] })
      [⟨whenTrue, .whenTrue⟩, ⟨whenFalse, .whenFalse⟩] [condition] where
  id _ := rfl
  kind _ := rfl
  branches _ := rfl
  operations c := by
    have front : c.operations ++ [condition] ~ [condition] ++ c.operations := List.perm_append_comm
    exact front.subperm.trans ((List.subperm_append_left _).2 (List.sublist_append_left _ _).subperm)

theorem fills_leaveScope (locals : List Symbol) :
    Fills (fun c => { c with leavingScope := c.leavingScope ++ locals }) [] [] where
  id _ := rfl
  kind _ := rfl
  branches c := (List.append_nil c.branches).symm
  operations _ := .refl _

/-! ### Building -/

theorem mem_edges {blocks : List Block} {x : BlockId × BlockId} :
    x ∈ Graph.edges blocks ↔ ∃ b ∈ blocks, ∃ e ∈ b.branches, (b.id, e.destination) = x := by
  simp only [Graph.edges, List.mem_flatMap, List.mem_map]

theorem build_eq_ok_iff {g : Graph} : d.build = .ok g ↔
    (∀ r, Graph.Rule.Kept d.blocks r) ∧ g = ⟨d.owner, d.parameters, d.blocks⟩ := by
  rw [build, Graph.ofBlocks?, ← Graph.fault?_eq_none_iff]
  cases Graph.fault? d.blocks with
  | none => simp [eq_comm]
  | some e => simp

theorem isExit_kindAt {i : Nat} {c : Block} (hc : c.kind = kindAt i) : c.isExit = true ↔ i = 1 := by
  rw [Block.isExit, hc]
  match i with
  | 0 | 1 | _ + 2 => simp [kindAt]

theorem isEntry_kindAt {i : Nat} {c : Block} (hc : c.kind = kindAt i) : c.isEntry = true ↔ i = 0 := by
  rw [Block.isEntry, hc]
  match i with
  | 0 | 1 | _ + 2 => simp [kindAt]

/-- A block of the draft is an exit if it has the name of the exit. -/
theorem Shaped.isExit_iff (h : d.Shaped es) {c : Block} (hc : c ∈ d.blocks) : c.isExit = true ↔ c.id = exit := by
  obtain ⟨i, hi⟩ := List.mem_iff_getElem?.1 hc
  rw [isExit_kindAt (h.placed i c hi).2, ← BlockId.toNat_inj, (h.placed i c hi).1]
  rfl

/-- The graph is made exactly if no edge leads to the entry or to a missing block, or leaves the exit. -/
theorem Shaped.build_iff (h : d.Shaped es) : (∃ g, d.build = .ok g) ↔
    ∀ x ∈ es.flatMap (·.edges), x.2 ≠ entry ∧ x.2.toNat < d.blocks.length ∧ x.1 ≠ exit := by
  have kept : (∃ g, d.build = .ok g) ↔ ∀ r, Graph.Rule.Kept d.blocks r := by
    simp only [build_eq_ok_iff, exists_and_left, exists_eq, and_true]
  have notEntry (i : BlockId) : i ≠ entry ↔ i.toNat ≠ 0 := not_congr BlockId.toNat_inj.symm
  simp only [kept, ← h.edges, mem_edges]
  constructor
  · rintro rules x ⟨b, hb, e, he, rfl⟩
    refine ⟨(notEntry _).2 (rules .notEntered b hb e he), rules .closed b hb e he, fun leaves => ?_⟩
    have none := rules .notLeft b hb ((h.isExit_iff hb).2 leaves)
    rw [none] at he
    cases he
  · intro edges r
    have size : 2 ≤ d.blocks.length := h.size ▸ Nat.le_add_right 2 _
    cases r with
    | nonempty =>
      rintro empty
      rw [empty] at size
      exact absurd size (by decide)
    | placed => exact fun i b hb => (h.placed i b hb).1
    | entry =>
      have first := List.getElem?_eq_getElem (Nat.lt_of_lt_of_le Nat.zero_lt_two size)
      exact ⟨_, first, (isEntry_kindAt (h.placed 0 _ first).2).2 rfl⟩
    | oneEntry => exact fun i b hb => (isEntry_kindAt (h.placed i b hb).2).1
    | exit =>
      have second := List.getElem?_eq_getElem (Nat.lt_of_lt_of_le Nat.one_lt_two size)
      exact ⟨_, List.mem_of_getElem? second, (isExit_kindAt (h.placed 1 _ second).2).2 rfl⟩
    | oneExit =>
      intro i j b c hb hc exitB exitC
      rw [(isExit_kindAt (h.placed i b hb).2).1 exitB, (isExit_kindAt (h.placed j c hc).2).1 exitC]
    | closed => exact fun b hb e he => (edges _ ⟨b, hb, e, he, rfl⟩).2.1
    | notEntered => exact fun b hb e he => (notEntry _).1 (edges _ ⟨b, hb, e, he, rfl⟩).1
    | notLeft =>
      intro b hb exit
      refine List.eq_nil_iff_forall_not_mem.2 fun e he => ?_
      exact (edges _ ⟨b, hb, e, he, rfl⟩).2.2 ((h.isExit_iff hb).1 exit)

end GraphDraft

/-! ### Bodies -/

namespace Assembly

/-- The operations that stand for themselves. -/
def Body.operations : Body → List Operation
  | draft d => d.operations
  | built (.ok g) => g.operations
  | built (.error _) => []

/-- What is left of a draft that may have been given up. -/
def Body.after (given : Bool) (d : GraphDraft) : Body := if given then built d.build else draft d

/-- A graph that was built has the operations of the draft. -/
theorem Body.operations_after (given : Bool) (d : GraphDraft) : (Body.after given d).operations <+~ d.operations := by
  cases given with
  | false => exact .refl _
  | true =>
    show (built d.build).operations <+~ _
    cases h : d.build with
    | error e => exact List.nil_subperm
    | ok g =>
      obtain rfl := (GraphDraft.build_eq_ok_iff.1 h).2
      exact .refl _

variable {d : GraphDraft} {es : List Edit}

/-- An edit whose block is there succeeds. It leaves the draft with that edit, and of operations it lets in those that it
uses. -/
theorem Edit.exists_apply (h : d.Shaped es) (operation : Nat → Operation) {e : Edit}
    (source : ∀ b ∈ e.source?, b.toNat < d.blocks.length)
    (room : 2 + (es ++ [e]).countP (·.isAddBlock) ≤ UInt64.size) :
    ∃ d', e.apply operation d = .ok (Body.after e.isBuild d') ∧ d'.Shaped (es ++ [e]) ∧
      d'.operations <+~ e.uses.map operation ++ d.operations := by
  have changed {f : Block → Block} {b : BlockId} {branches : List Branch}
      (fills : GraphDraft.Fills f branches (e.uses.map operation)) (hb : b ∈ e.source?) (adds : e.isAddBlock = false)
      (edges : e.edges = branches.map fun x => (b, x.destination)) :
      ∃ d', (d.change b f).map Body.draft = .ok (.draft d') ∧ d'.Shaped (es ++ [e]) ∧
        d'.operations <+~ e.uses.map operation ++ d.operations := by
    obtain ⟨d', change, shaped, operations⟩ := h.change fills (source b hb) adds edges
    exact ⟨d', by rw [change]; rfl, shaped, operations⟩
  cases e with
  | addBlock =>
    have fits : d.blocks.length < UInt64.size := by
      rw [List.countP_append, ← Nat.add_assoc, ← h.size] at room
      exact room
    have same : d.addBlock.operations = d.operations := by
      simp [GraphDraft.operations, GraphDraft.addBlock, Block.bare, Block.allOperations]
    refine ⟨d.addBlock, rfl, h.addBlock fits, ?_⟩
    rw [same]
    exact .refl _
  | push b n => exact changed (GraphDraft.fills_push _) rfl rfl rfl
  | goto b target => exact changed (GraphDraft.fills_goto _) rfl rfl rfl
  | branch b n whenTrue whenFalse => exact changed (GraphDraft.fills_branch _ _ _) rfl rfl rfl
  | leaveScope b locals => exact changed (GraphDraft.fills_leaveScope _) rfl rfl rfl
  | build =>
    refine ⟨d, rfl, ⟨?_, h.placed, fun x => ?_⟩, .refl _⟩
    · rw [h.size, List.countP_append]
      rfl
    · rw [h.edges, List.flatMap_append]
      simp [Edit.edges]

end Assembly

end Dataflow
