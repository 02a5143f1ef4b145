import Dataflow.Proofs.Assembly.Identifiers
import Mathlib.Data.List.Induction

/-!
# What scripts make

Whatever the order of its steps, a sound script can be followed to its end, and what the bench holds is told by the script:
how many operations there are and which of them were used, and for each draft how many blocks and which edges it has.

## The notions

* `Workbench.Follows`: the bench holds what a script makes.

## What is proved

A step of a sound script takes the bench from what is told by the steps before to what is told with it
(`Workbench.Follows.step`); by induction on steps the same holds of whole scripts (`Sound.run`). So the identifiers in all
graphs are distinct, they grow from the inside of a tree to the outside, and a draft gives a graph exactly if no edge leads
to the entry or to a missing block, or leaves the exit (`built_programs_are_wellFormed`).
-/

namespace Dataflow

open scoped List

namespace Assembly

open Operation

/-! ### Scripts that get longer -/

section Concat

variable (script : List Step) (s : Step) (d : Nat)

theorem made_concat : made (script ++ [s]) = made script + made [s] := List.countP_append

theorem opened_concat : opened (script ++ [s]) = opened script + opened [s] := List.countP_append

theorem uses_concat : uses (script ++ [s]) = uses script ++ s.uses := by
  rw [uses, uses, List.flatMap_append, List.flatMap_singleton]

theorem edits_concat : edits (script ++ [s]) d = edits script d ++ edits [s] d := List.filterMap_append

theorem isBuilt_concat : isBuilt (script ++ [s]) d = (isBuilt script d || isBuilt [s] d) := by
  rw [isBuilt, isBuilt, isBuilt, edits_concat, List.any_append]

theorem blocks_le : blocks script d ≤ 2 + script.length :=
  Nat.add_le_add_left (Nat.le_trans List.countP_le_length (List.length_filterMap_le _ _)) 2

theorem blocks_concat : blocks (script ++ [s]) d = 2 + (edits script d ++ edits [s] d).countP (·.isAddBlock) := by
  rw [blocks, edits_concat]

theorem blocks_concat_le : blocks script d ≤ blocks (script ++ [s]) d := by
  rw [blocks_concat, List.countP_append, blocks]
  omega

end Concat

variable {script : List Step} {s : Step}

theorem edits_single_edit (d d' : Nat) (e : Edit) : edits [.edit d e] d' = if d = d' then [e] else [] := by
  by_cases h : d = d' <;> simp [edits, h]

/-- The steps before the last one are sound by themselves. -/
theorem Sound.init (h : Sound (script ++ [s])) : Sound script where
  few := Nat.lt_of_le_of_lt (by rw [made_concat]; exact Nat.le_add_right _ _) h.few
  named d := Nat.le_trans (blocks_concat_le script s d) (h.named d)
  once := by
    have once := h.once
    rw [uses_concat] at once
    exact (List.nodup_append.1 once).1
  grounded i hi := by
    have there : i < (script ++ [s]).length := by
      rw [List.length_append]
      exact Nat.lt_add_right _ hi
    have grounded := h.grounded i there
    rwa [List.getElem_append_left hi, List.take_append_of_le_length (Nat.le_of_lt hi)] at grounded

/-- The last step names what the steps before it make. -/
theorem Sound.last (h : Sound (script ++ [s])) : s.Grounded script := by
  have there : script.length < (script ++ [s]).length := by simp
  have grounded := h.grounded script.length there
  rwa [List.getElem_concat_length rfl, List.take_left] at grounded

theorem Step.Grounded.uses_lt (h : s.Grounded script) : ∀ i ∈ s.uses, i < made script := by
  cases s with
  | atLine | draft => exact fun _ hi => by cases hi
  | make part => exact h
  | edit d e => exact h.2.2.1

/-! ### Bodies -/

/-- The bodies are those that a script opens, with what it does to them. -/
structure Drafted (bodies : List Body) (script : List Step) : Prop where
  /-- As many as are opened. -/
  size : bodies.length = opened script
  /-- Each has the blocks and edges that it was given. -/
  shaped : ∀ d < opened script, ∃ draft : GraphDraft, draft.Shaped (edits script d) ∧
    bodies[d]? = some (.after (isBuilt script d) draft)
  /-- Nothing is done to drafts that are not opened. -/
  untouched : ∀ d, opened script ≤ d → edits script d = []

namespace Drafted

variable {bodies : List Body}

/-- A draft stays as it is if nothing is done to it. -/
theorem shaped_concat (h : Drafted bodies script) {bodies' : List Body} {d : Nat} (hd : d < opened script)
    (nothing : edits [s] d = []) (same : bodies'[d]? = bodies[d]?) :
    ∃ draft : GraphDraft, draft.Shaped (edits (script ++ [s]) d) ∧
      bodies'[d]? = some (.after (isBuilt (script ++ [s]) d) draft) := by
  obtain ⟨draft, shaped, body⟩ := h.shaped d hd
  have built : isBuilt [s] d = false := by rw [isBuilt, nothing, List.any_nil]
  refine ⟨draft, ?_, ?_⟩
  · rwa [edits_concat, nothing, List.append_nil]
  · rw [same, body, isBuilt_concat, built, Bool.or_false]

/-- A step that has to do with no draft. -/
theorem other (h : Drafted bodies script) (opens : opened [s] = 0) (nothing : ∀ d, edits [s] d = []) :
    Drafted bodies (script ++ [s]) where
  size := by rw [opened_concat, opens, h.size, Nat.add_zero]
  shaped d hd := by
    rw [opened_concat, opens] at hd
    exact h.shaped_concat hd (nothing d) rfl
  untouched d hd := by
    rw [opened_concat, opens] at hd
    rw [edits_concat, h.untouched d hd, nothing d, List.append_nil]

/-- A draft is opened. -/
theorem draft (h : Drafted bodies script) (owner : Symbol) (parameters : List Symbol) :
    Drafted (bodies ++ [.draft (.start owner parameters)]) (script ++ [.draft owner parameters]) where
  size := by
    rw [opened_concat, List.length_append, h.size]
    rfl
  shaped d hd := by
    rw [opened_concat] at hd
    rcases Nat.lt_or_eq_of_le (Nat.le_of_lt_succ hd) with lt | rfl
    · exact h.shaped_concat lt rfl (List.getElem?_append_left (h.size.symm ▸ lt))
    · have untouched : edits (script ++ [.draft owner parameters]) (opened script) = [] := by
        rw [edits_concat, h.untouched _ (Nat.le_refl _)]
        rfl
      refine ⟨.start owner parameters, ?_, ?_⟩
      · rw [untouched]
        exact GraphDraft.shaped_start owner parameters
      · rw [isBuilt, untouched, ← h.size, List.getElem?_concat_length]
        rfl
  untouched d hd := by
    rw [opened_concat] at hd
    rw [edits_concat, h.untouched d (Nat.le_of_succ_le hd)]
    rfl

/-- A draft is changed whose block is there. -/
theorem edit (h : Drafted bodies script) {d : Nat} {e : Edit} (operation : Nat → Operation)
    (sound : Sound (script ++ [.edit d e])) : ∃ draft body,
      bodies[d]? = some (.draft draft) ∧ e.apply operation draft = .ok body ∧
        body.operations <+~ e.uses.map operation ++ draft.operations ∧
          Drafted (bodies.set d body) (script ++ [.edit d e]) := by
  obtain ⟨hd, open_, -, source⟩ := sound.last
  obtain ⟨draft, shaped, body⟩ := h.shaped d hd
  have size : draft.blocks.length = blocks script d := shaped.size
  have room := sound.named d
  rw [blocks_concat, edits_single_edit, if_pos rfl] at room
  obtain ⟨draft', applied, shaped', operations⟩ :=
    Edit.exists_apply shaped operation (size.symm ▸ source) room
  rw [open_] at body
  have same : opened (script ++ [.edit d e]) = opened script := opened_concat ..
  refine ⟨draft, _, body, applied, (Body.operations_after _ _).trans operations, ?_, fun d' hd' => ?_, fun d' hd' => ?_⟩
  · rw [List.length_set, h.size, same]
  · rw [same] at hd'
    by_cases here : d = d'
    · subst here
      refine ⟨draft', ?_, ?_⟩
      · rw [edits_concat, edits_single_edit, if_pos rfl]
        exact shaped'
      · rw [List.getElem?_set_self (h.size.symm ▸ hd), isBuilt_concat, open_, Bool.false_or, isBuilt, edits_single_edit,
          if_pos rfl, List.any_cons, List.any_nil, Bool.or_false]
    · refine h.shaped_concat hd' ?_ (List.getElem?_set_ne here)
      rw [edits_single_edit, if_neg here]
  · rw [same] at hd'
    rw [edits_concat, h.untouched d' hd', edits_single_edit, if_neg (Nat.ne_of_lt (Nat.lt_of_lt_of_le hd hd'))]
    rfl

end Drafted

/-! ### Operations -/

/-- The operations are those that a script makes, and it uses none of them twice. -/
structure Stored (w : Workbench) (script : List Step) : Prop where
  /-- As many as are made. -/
  stocked : w.Stocked (made script)
  /-- Those that are used were made. -/
  used : ∀ i ∈ uses script, i < made script
  /-- No identifier occurs twice in the trees. -/
  distinct : (idsIn (w.roots (uses script))).Nodup
  /-- Bodies are made of operations that were made. -/
  placed : ∀ o ∈ w.placed, o ∈ w.operations

namespace Stored

variable {w w' : Workbench}

/-- A step that makes no operation, and puts into bodies what it uses. -/
theorem use (h : Stored w script) (sound : Sound (script ++ [s])) (makes : made [s] = 0)
    (next : w'.supply.nextId = w.supply.nextId) (operations : w'.operations = w.operations)
    (placed : w'.placed <+~ s.uses.map w.operation ++ w.placed) : Stored w' (script ++ [s]) := by
  have same : made (script ++ [s]) = made script := by rw [made_concat, makes, Nat.add_zero]
  have there : ∀ i ∈ s.uses, i < w.operations.length := h.stocked.size.symm ▸ sound.last.uses_lt
  have once := sound.once
  rw [uses_concat] at once
  refine ⟨?_, fun i hi => ?_, ?_, fun o ho => ?_⟩
  · rw [same]
    exact ⟨next ▸ h.stocked.next, operations ▸ h.stocked.size, operations ▸ h.stocked.numbered,
      operations ▸ h.stocked.operands⟩
  · rw [uses_concat] at hi
    rw [same]
    exact (List.mem_append.1 hi).elim (h.used i) (sound.last.uses_lt i)
  · rw [uses_concat]
    exact nodup_idsIn_of_subperm (Workbench.roots_place once there operations placed) h.distinct
  · rw [operations]
    rcases List.mem_append.1 (placed.subset ho) with ho | ho
    · obtain ⟨i, hi, rfl⟩ := List.mem_map.1 ho
      exact Workbench.operation_mem (there i hi)
    · exact h.placed o ho

/-- An operation is made of some that are loose. -/
theorem make (h : Stored w script) {part : Part Nat} (sound : Sound (script ++ [.make part])) :
    ∃ op supply, w.take (.make part) = some ⟨supply, w.operations ++ [op], w.bodies⟩ ∧
      Stored ⟨supply, w.operations ++ [op], w.bodies⟩ (script ++ [.make part]) := by
  obtain ⟨op, supply, taken, id, operands, next⟩ := Workbench.take_make w part
  have more : made (script ++ [.make part]) = made script + 1 := made_concat ..
  have room := sound.few
  rw [more] at room
  obtain ⟨number, stocked⟩ := h.stocked.make room sound.last id operands next
  have there : ∀ i ∈ uses script ++ part.operands, i < made script := fun i hi =>
    (List.mem_append.1 hi).elim (h.used i) (sound.last i)
  have once := sound.once
  rw [uses_concat] at once
  refine ⟨op, supply, taken, more ▸ stocked, fun i hi => ?_, ?_, fun o ho => List.mem_append_left _ (h.placed o ho)⟩
  · rw [uses_concat] at hi
    rw [more]
    exact Nat.lt_succ_of_lt (there i hi)
  · rw [uses_concat]
    have ids : idsIn (Workbench.roots ⟨supply, w.operations ++ [op], w.bodies⟩ (uses script ++ part.operands)) ~
        op.id :: idsIn (w.roots (uses script)) :=
      Workbench.idsIn_roots_make once (h.stocked.size.symm ▸ there) rfl rfl operands
    rw [Step.uses, ids.nodup_iff, List.nodup_cons]
    -- All identifiers so far are below the number of operations, which is the new one.
    refine ⟨fun old => ?_, h.distinct⟩
    have lt := h.stocked.idsIn_lt (Workbench.roots_subset _ h.placed) _ old
    exact absurd number (Nat.ne_of_lt lt)

end Stored

namespace Workbench

variable {w : Workbench}

/-- The bench holds what a script makes. -/
structure Follows (w : Workbench) (script : List Step) : Prop where
  /-- Its operations. -/
  stored : Stored w script
  /-- Its bodies. -/
  drafted : Drafted w.bodies script

theorem follows_empty : empty.Follows [] where
  stored := ⟨stocked_empty, fun _ h => absurd h List.not_mem_nil, List.nodup_nil, fun _ h => absurd h List.not_mem_nil⟩
  drafted := ⟨rfl, fun _ h => absurd h (Nat.not_lt_zero _), fun _ _ => rfl⟩

/-- A body is exchanged for one that has its operations, or others that were loose. -/
theorem placed_set {d : Nat} {old body : Body} {new : List Operation} (there : w.bodies[d]? = some old)
    (operations : body.operations <+~ new ++ old.operations) :
    placed { w with bodies := w.bodies.set d body } <+~ new ++ w.placed := by
  obtain ⟨hd, rfl⟩ := List.getElem?_eq_some_iff.1 there
  obtain ⟨before, after, bodies, -, exchanged⟩ := List.exists_of_set hd
  rw [placed, placed, exchanged]
  rw [bodies]
  exact flatMap_subperm operations

/-- A step of a sound script takes the bench on. -/
theorem Follows.step (h : w.Follows script) (sound : Sound (script ++ [s])) :
    ∃ w', w.step s = some w' ∧ w'.Follows (script ++ [s]) := by
  have there : ∀ i ∈ s.uses, i < w.operations.length := h.stored.stocked.size.symm ▸ sound.last.uses_lt
  rw [Workbench.step, if_pos there]
  cases s with
  | atLine line =>
    exact ⟨_, rfl, h.stored.use sound rfl rfl rfl (.refl _), h.drafted.other rfl fun _ => rfl⟩
  | make part =>
    obtain ⟨op, supply, taken, stored⟩ := h.stored.make sound
    exact ⟨_, taken, stored, h.drafted.other rfl fun _ => rfl⟩
  | draft owner parameters =>
    have nothing : placed { w with bodies := w.bodies ++ [.draft (.start owner parameters)] } = w.placed := by
      rw [placed, placed, List.flatMap_append]
      exact List.append_nil _
    exact ⟨_, rfl, h.stored.use sound rfl rfl rfl (nothing ▸ .refl _), h.drafted.draft owner parameters⟩
  | edit d e =>
    obtain ⟨draft, body, open_, applied, operations, drafted⟩ := h.drafted.edit w.operation sound
    have placed := placed_set open_ operations
    refine ⟨{ w with bodies := w.bodies.set d body }, ?_, h.stored.use sound rfl rfl rfl placed, drafted⟩
    simp only [take, open_, applied]

end Workbench

/-- A sound script can be followed to its end. -/
theorem Sound.run (sound : Sound script) : ∃ w, Workbench.run script = some w ∧ w.Follows script := by
  -- The last step is taken off, since what a step may name depends on the steps before it.
  induction script using List.reverseRecOn with
  | nil => exact ⟨_, rfl, Workbench.follows_empty⟩
  | append_singleton script s ih =>
    obtain ⟨w, run, follows⟩ := ih sound.init
    obtain ⟨w', step, follows'⟩ := follows.step sound
    exact ⟨w', by rw [Workbench.run_concat, run]; exact step, follows'⟩

/-! ### Built programs -/

/-- The graphs have no operations but those of bodies. -/
theorem operations_graphs_sublist (bodies : List Body) :
    (bodies.filterMap (·.graph?)).flatMap (·.operations) <+ bodies.flatMap (·.operations) := by
  induction bodies with
  | nil => exact .slnil
  | cons body bodies ih =>
    match body with
    | .built (.ok g) => exact (List.Sublist.refl g.operations).append ih
    | .built (.error _) => exact ih
    | .draft d => exact ih.trans (List.sublist_append_right _ _)

/-- What is done to a draft that is built is known to the draft. -/
theorem Drafted.built {bodies : List Body} (h : Drafted bodies script) {d : Nat} (built : .edit d .build ∈ script) :
    ∃ draft : GraphDraft, draft.Shaped (edits script d) ∧ bodies[d]? = some (.built draft.build) := by
  have mem : Edit.build ∈ edits script d := List.mem_filterMap.2 ⟨_, built, if_pos rfl⟩
  have hd : d < opened script := Nat.lt_of_not_le fun beyond => by
    rw [h.untouched d beyond] at mem
    cases mem
  obtain ⟨draft, shaped, body⟩ := h.shaped d hd
  have given : isBuilt script d = true := List.any_eq_true.2 ⟨_, mem, rfl⟩
  rw [given] at body
  exact ⟨draft, shaped, body⟩

/-- **Built programs are well formed.** A sound script can be followed to its end. Then no identifier occurs twice in all
graphs, what is nested in an operation has smaller identifiers than it, and a draft that was given up gave a graph exactly
if none of its edges leads to the entry or to a missing block, or leaves the exit. -/
theorem built_programs_are_wellFormed (sound : Sound script) : ∃ w, Workbench.run script = some w ∧
    (idsIn (w.graphs.flatMap (·.operations))).Nodup ∧
    (∀ op, op ∈ w.operations ∨ op ∈ subtrees (w.graphs.flatMap (·.operations)) → op.Ascends) ∧
    ∀ d, .edit d .build ∈ script → ∃ result, w.bodies[d]? = some (.built result) ∧
      ((∃ g, result = .ok g) ↔ ∀ x ∈ edges script d,
        x.2 ≠ GraphDraft.entry ∧ x.2.toNat < blocks script d ∧ x.1 ≠ GraphDraft.exit) := by
  obtain ⟨w, run, stored, drafted⟩ := sound.run
  have graphs : w.graphs.flatMap (·.operations) <+ w.placed := operations_graphs_sublist w.bodies
  have roots : w.placed <+ w.roots (uses script) := List.sublist_append_right _ _
  refine ⟨w, run, stored.distinct.sublist (idsIn_sublist (graphs.trans roots)), fun op hop => ?_, fun d built => ?_⟩
  · have made : op ∈ w.operations := hop.elim id
      (stored.stocked.subtrees_subset (fun o ho => stored.placed o (graphs.subset ho)) op)
    exact stored.stocked.ascends made
  · obtain ⟨draft, shaped, body⟩ := drafted.built built
    refine ⟨draft.build, body, ?_⟩
    rw [shaped.build_iff, shaped.size]
    rfl

namespace SideBySide

/-- A method. -/
def method (name : String) : Symbol := Symbol.method "C" name none

/-- A variable. -/
def named (name : String) : Symbol := Symbol.localVar name none

/-- One method assigns and loops; another one is begun before the first is finished, and leads back to its entry. -/
def interleaved : List Step := [
  .draft (method "loop") [], .make (.localRef (named "x")), .make (.literal (.integer 1)), .make (.assignment 0 1),
  .draft (method "back") [], .edit 0 .addBlock, .make (.literal (.bool true)), .edit 0 (.push ⟨0⟩ 2),
  .edit 0 (.goto ⟨0⟩ ⟨2⟩), .make (.localRef (named "y")), .edit 0 (.branch ⟨2⟩ 3 ⟨2⟩ ⟨1⟩), .edit 1 .addBlock,
  .make (.ret (some 4)), .edit 1 (.push ⟨2⟩ 5), .edit 1 (.goto ⟨0⟩ ⟨2⟩), .edit 0 .build, .edit 1 (.goto ⟨2⟩ ⟨0⟩),
  .edit 1 .build]

theorem sound : Sound interleaved where
  few := by decide
  named d := Nat.le_trans (blocks_le interleaved d) (by decide)
  once := by decide
  grounded := by decide

end SideBySide

open SideBySide in
/-- Two bodies that are assembled side by side: the first one gives a graph, the second one none. -/
theorem built_programs_are_wellFormed_two : Sound interleaved ∧
    ∃ w, Workbench.run interleaved = some w ∧ (idsIn (w.graphs.flatMap (·.operations))).Nodup ∧
      (∀ op ∈ w.operations, op.Ascends) ∧ (∃ g, w.bodies[0]? = some (.built (.ok g))) ∧
        ∃ e, w.bodies[1]? = some (.built (.error e)) := by
  obtain ⟨w, run, distinct, ascends, built⟩ := built_programs_are_wellFormed sound
  refine ⟨sound, w, run, distinct, fun op hop => ascends op (.inl hop), ?_, ?_⟩
  · obtain ⟨result, body, made⟩ := built 0 (by simp [interleaved])
    obtain ⟨g, rfl⟩ := made.2 (by decide)
    exact ⟨g, body⟩
  · obtain ⟨result, body, made⟩ := built 1 (by simp [interleaved])
    cases result with
    | ok g => exact absurd (made.1 ⟨g, rfl⟩) (by decide)
    | error e => exact ⟨e, body⟩

end Assembly

end Dataflow
