import Dataflow.Proofs.Visit.Names
import Dataflow.Proofs.Visit.Records

/-!
# What a solution covers

A solution has states of the blocks that control can reach, states before the operations that stand for themselves in these
blocks, and values of all operations in them. It has nothing else, whatever is known about the methods that are called.

## What is proved

`Solution.Covers` says what is in a solution. The walk over the blocks notes all of that (`Analysis.runBlock_adds`), and each
block that control can reach is visited, so it is there at the end (`Analysis.covers`). In particular this holds of the four
analyses (`Analysis.solutions_cover`).
-/

namespace Dataflow

variable {V : Type}

/-- What is in a solution of a body. -/
structure Solution.Covers (g : Graph) (sol : Solution V) : Prop where
  /-- There is a state at the start of each block that control can reach. -/
  entries : ∀ i, (sol.entries.find? i).isSome ↔ g.Reachable i
  /-- There is a state at the end of each. -/
  exits : ∀ i, (sol.exits.find? i).isSome ↔ g.Reachable i
  /-- There is a state before each operation of these blocks that stands for itself. -/
  before : ∀ i, (sol.stateBefore i).isSome ↔ ∃ b ∈ g.blocks, g.Reachable b.id ∧ ∃ op ∈ b.allOperations, op.id = i
  /-- There is a value of each operation that occurs in one of them. -/
  values : ∀ i, (sol.valueAt i).isSome ↔
    ∃ b ∈ g.blocks, g.Reachable b.id ∧ ∃ op ∈ b.allOperations, ∃ o, op.Contains o ∧ o.id = i
  /-- If control can reach all blocks, there are as many values as operations. -/
  count : (∀ b ∈ g.blocks, g.Reachable b.id) → sol.values.size = g.operationCount

/-- A map has as many entries as keys are listed. -/
theorem FinMap.size_eq_length {α β : Type} [Ord α] [Std.TransOrd α] [Std.LawfulEqOrd α] {m : FinMap α β} {l : List α}
    (nodup : l.Nodup) (h : ∀ k, (m.find? k).isSome ↔ k ∈ l) : m.size = l.length := by
  have same : m.keys.toList.Perm l := (List.perm_ext_iff_of_nodup m.keys.nodup_toList nodup).2 fun k => by
    rw [FinSet.mem_toList, mem_keys, h]
  have size : m.keys.toList.length = m.size := List.length_map _
  rw [← size, same.length_eq]

namespace Analysis

variable [DecidableEq V] {A : Analysis V} {ctx : Context V}

/-- What is noted is of operations in blocks that are swept, and all is noted of a block that was visited. -/
def coverage (ctx : Context V) : Invariant V where
  state _ := True
  machine m :=
    (∀ i, (m.notes.before.find? i).isSome → ∃ b ∈ sweepOrder ctx.graph, i ∈ b.allOperations.map (·.id)) ∧
      ∀ i, (m.notes.values.find? i).isSome → ∃ b ∈ sweepOrder ctx.graph, i ∈ Operation.idsIn b.allOperations
  block b _ _ n :=
    (∀ i ∈ b.allOperations.map (·.id), (n.before.find? i).isSome) ∧
      ∀ i ∈ Operation.idsIn b.allOperations, (n.values.find? i).isSome

theorem coverage_kept (H : A.KeepsRecords ctx) {usual : Call V → Visit V V} (husual : IsUsual A ctx usual)
    (initial : State V) : (coverage ctx).Kept A ctx usual initial where
  initial := trivial
  merge _ _ _ _ := trivial
  widen _ _ _ _ := trivial
  run b hb m s noted _ := (runBlock_adds H husual b s m).mono fun out m' adds => by
    obtain ⟨before, values⟩ := noted
    refine ⟨⟨fun i hi => ?_, fun i hi => ?_⟩, trivial, ?_, fun c _ _ _ _ all => ?_⟩
    · exact ((adds.before i).1 hi).elim (before i) fun new => ⟨b, hb, new⟩
    · exact ((adds.values i).1 hi).elim (values i) fun new => ⟨b, hb, new⟩
    · exact ⟨fun i hi => (adds.before i).2 (.inr hi), fun i hi => (adds.values i).2 (.inr hi)⟩
    · exact ⟨fun i hi => (adds.before i).2 (.inl (all.1 i hi)), fun i hi => (adds.values i).2 (.inl (all.2 i hi))⟩

/-- A solution covers the body if the analysis leaves it to the walk what is noted. -/
theorem covers (H : A.KeepsRecords ctx) (valid : ctx.graph.Valid) (distinct : ctx.graph.DistinctIds)
    {ledger ledger' : Ledger V} {sol : Solution V} (h : (A.solve ctx).run ledger = (.ok sol, ledger')) :
    sol.Covers ctx.graph := by
  obtain ⟨initial, p, m, -, rfl, hholds, hsettled⟩ := solve_holds (K := coverage ctx) h valid
    (fun m start => by simp [coverage, start, Notes.start]) fun _ husual initial _ => coverage_kept H husual initial
  have states := isSome_states_iff valid hholds hsettled
  have noted {b : Block} (hb : b ∈ ctx.graph.blocks) (hi : ctx.graph.Reachable b.id) :
      (∀ i ∈ b.allOperations.map (·.id), (m.notes.before.find? i).isSome) ∧
        ∀ i ∈ Operation.idsIn b.allOperations, (m.notes.values.find? i).isSome := by
    obtain ⟨_, _, -, all, -⟩ := exists_visit_of_reachable valid hholds hsettled (P := fun _ => True) (fun _ _ _ _ => trivial)
      hi (valid.block?_id hb) fun _ _ => trivial
    exact all
  have values (i : OperationId) : (m.notes.values.find? i).isSome ↔
      ∃ b ∈ ctx.graph.blocks, ctx.graph.Reachable b.id ∧ i ∈ Operation.idsIn b.allOperations := by
    constructor
    · intro hi
      obtain ⟨b, hb, hi⟩ := hholds.machine.2 i hi
      exact ⟨b, mem_blocks_of_mem_sweepOrder hb, reachable_of_mem_sweepOrder valid hb, hi⟩
    · rintro ⟨b, hb, reachable, hi⟩
      exact (noted hb reachable).2 i hi
  refine ⟨fun i => (states i).1, fun i => (states i).2, fun i => ⟨fun hi => ?_, ?_⟩, fun i => (values i).trans ?_, fun all => ?_⟩
  · obtain ⟨b, hb, hi⟩ := hholds.machine.1 i hi
    exact ⟨b, mem_blocks_of_mem_sweepOrder hb, reachable_of_mem_sweepOrder valid hb, List.mem_map.1 hi⟩
  · rintro ⟨b, hb, reachable, hi⟩
    exact (noted hb reachable).1 i (List.mem_map.2 hi)
  · simp only [Operation.idsIn, Operation.subtrees, List.mem_map, List.mem_flatMap, ← Operation.mem_subtree_iff]
    constructor
    · rintro ⟨b, hb, reachable, o, ⟨op, hop, ho⟩, hid⟩
      exact ⟨b, hb, reachable, op, hop, o, ho, hid⟩
    · rintro ⟨b, hb, reachable, op, hop, o, ho, hid⟩
      exact ⟨b, hb, reachable, o, ⟨op, hop, ho⟩, hid⟩
  · rw [Graph.operationCount_eq]
    refine FinMap.size_eq_length distinct fun i => (values i).trans ?_
    rw [Graph.idsIn_operations, List.mem_flatMap]
    constructor
    · rintro ⟨b, hb, -, hi⟩
      exact ⟨b, hb, hi⟩
    · rintro ⟨b, hb, hi⟩
      exact ⟨b, hb, all b hb, hi⟩

/-- **A solution covers what control can reach, and nothing else.** Whatever the configuration, the caller and what is on file,
a solution of any of the four analyses has states of exactly the blocks that control can reach, states before exactly the
operations that stand for themselves in these blocks, and values of exactly the operations that occur in them. -/
theorem solutions_cover {graph : Graph} (valid : graph.Valid) (distinct : graph.DistinctIds) (rules : TaintRules) :
    (∀ (ctx : Context PointsTo) (ledger ledger' : Ledger PointsTo) (sol : Solution PointsTo),
      ctx.graph = graph → (pointsTo.solve ctx).run ledger = (.ok sol, ledger') → sol.Covers graph) ∧
    (∀ (ctx : Context CopyClass) (ledger ledger' : Ledger CopyClass) (sol : Solution CopyClass),
      ctx.graph = graph → (copies.solve ctx).run ledger = (.ok sol, ledger') → sol.Covers graph) ∧
    (∀ (ctx : Context Content) (ledger ledger' : Ledger Content) (sol : Solution Content),
      ctx.graph = graph → (contents.solve ctx).run ledger = (.ok sol, ledger') → sol.Covers graph) ∧
    (∀ (ctx : Context Taint) (ledger ledger' : Ledger Taint) (sol : Solution Taint),
      ctx.graph = graph → ((taint rules).solve ctx).run ledger = (.ok sol, ledger') → sol.Covers graph) := by
  refine ⟨?_, ?_, ?_, ?_⟩
  · rintro ctx ledger ledger' sol rfl h
    exact covers (pointsTo_keepsRecords ctx) valid distinct h
  · rintro ctx ledger ledger' sol rfl h
    exact covers (copies_keepsRecords ctx) valid distinct h
  · rintro ctx ledger ledger' sol rfl h
    exact covers (contents_keepsRecords ctx) valid distinct h
  · rintro ctx ledger ledger' sol rfl h
    exact covers (taint_keepsRecords rules ctx) valid distinct h

/-! ### A block that control may skip -/

namespace Skipping

open Nodes

/-- The method that is called. -/
def callee : Symbol := Symbol.method "C" "read" int

/-- A local with a number. -/
def var (id : UInt32) (name : String) : Operation := .localRef (info id int) (Symbol.localVar name int)

/-- A number. -/
def constant (id : UInt32) (n : Int64) : Operation := .literal (info id int) (.integer n)

/-- A sum of a number and the result of a call is stored. -/
def sum : Operation :=
  .assignment (info 9 int) (var 3 "x") (.binary (info 8 int) .add (constant 4 1)
    (.invocation (info 7 int) callee none [⟨none, var 5 "y", .value⟩, ⟨none, constant 6 2, .value⟩]))

/-- Control may skip the block in the middle. -/
def graph (skips : Bool) : Graph := ⟨main, [], [
  ⟨⟨0⟩, .entry, [], none, [⟨⟨if skips then 2 else 1⟩, .regular⟩], []⟩,
  ⟨⟨1⟩, .block, [.assignment (info 2 int) (var 0 "y") (constant 1 5)], none, [⟨⟨2⟩, .regular⟩], []⟩,
  ⟨⟨2⟩, .block, [sum], some (constant 10 0), [⟨⟨3⟩, .whenTrue⟩, ⟨⟨3⟩, .whenFalse⟩], []⟩, .bare ⟨3⟩ .exit]⟩

/-- The method that is called returns a number. -/
def bodies (m : Symbol) : Option Graph :=
  if m = callee then some { body [.ret (info 12 int) (some (constant 11 3))] with owner := callee } else none

/-- The call is followed. -/
def context (V : Type) (skips : Bool) : Context V :=
  Context.start (graph skips) { Config.usual with calls := CallConfig.usual .inContext } bodies

/-- Nothing is untrusted. -/
def rules : TaintRules := TaintRules.ofConfig (KnownTypes.ofList []) TaintConfig.empty

theorem valid (skips : Bool) : (graph skips).Valid := by
  cases skips <;> decide +kernel

theorem distinct (skips : Bool) : (graph skips).DistinctIds := by
  cases skips <;> decide +kernel

end Skipping

open Nodes Skipping in
/-- If control skips the block, then no analysis has a value of what is in it. Otherwise each operation has one. -/
theorem solutions_cover_skipping :
    (∃ sol ledger, (pointsTo.solve (context _ true)).run (Ledger.start false) = (.ok sol, ledger) ∧ sol.Covers (graph true)) ∧
    (∃ sol ledger, (copies.solve (context _ true)).run (Ledger.start false) = (.ok sol, ledger) ∧ sol.Covers (graph true)) ∧
    (∃ sol ledger, ((taint rules).solve (context _ true)).run (Ledger.start false) = (.ok sol, ledger) ∧
      sol.Covers (graph true)) ∧
    (∃ sol ledger, (contents.solve (context _ true)).run (Ledger.start false) = (.ok sol, ledger) ∧ sol.Covers (graph true) ∧
      sol.entries.find? ⟨1⟩ = none ∧ sol.valueAt ⟨2⟩ = none ∧ (sol.valueAt ⟨5⟩).isSome ∧ (sol.stateBefore ⟨10⟩).isSome) ∧
    ∃ sol ledger, (contents.solve (context _ false)).run (Ledger.start false) = (.ok sol, ledger) ∧ sol.values.size = 11 := by
  obtain ⟨onPointsTo, onCopies, onContents, onTaint⟩ := solutions_cover (valid true) (distinct true) rules
  obtain ⟨-, -, onAll, -⟩ := solutions_cover (valid false) (distinct false) rules
  refine ⟨?_, ?_, ?_, ?_, ?_⟩
  · obtain ⟨sol, ledger, h⟩ :=
      exists_of_isOk (r := (pointsTo.solve (context _ true)).run (Ledger.start false)) (by decide +kernel)
    exact ⟨sol, ledger, h, onPointsTo _ _ _ _ rfl h⟩
  · obtain ⟨sol, ledger, h⟩ :=
      exists_of_isOk (r := (copies.solve (context _ true)).run (Ledger.start false)) (by decide +kernel)
    exact ⟨sol, ledger, h, onCopies _ _ _ _ rfl h⟩
  · obtain ⟨sol, ledger, h⟩ :=
      exists_of_isOk (r := ((taint rules).solve (context _ true)).run (Ledger.start false)) (by decide +kernel)
    exact ⟨sol, ledger, h, onTaint _ _ _ _ rfl h⟩
  · obtain ⟨sol, ledger, h⟩ :=
      exists_of_isOk (r := (contents.solve (context _ true)).run (Ledger.start false)) (by decide +kernel)
    have covers := onContents _ _ _ _ rfl h
    have skipped : ¬(graph true).Reachable ⟨1⟩ := fun h => absurd ((valid true).mem_reversePostOrder.2 h) (by decide)
    have reached : (graph true).Reachable ⟨2⟩ := (valid true).mem_reversePostOrder.1 (by decide)
    have away : ∀ b ∈ (graph true).blocks, b.id ≠ ⟨1⟩ → ⟨2⟩ ∉ Operation.idsIn b.allOperations := by decide
    refine ⟨sol, ledger, h, covers, ?_, ?_, ?_, ?_⟩
    · exact Option.not_isSome_iff_eq_none.1 fun some => skipped ((covers.entries _).1 some)
    · refine Option.not_isSome_iff_eq_none.1 fun some => ?_
      obtain ⟨b, hb, reachable, op, hop, o, contains, hid⟩ := (covers.values _).1 some
      refine away b hb (fun same => skipped (same ▸ reachable)) (hid ▸ Operation.id_mem_idsIn ?_)
      exact Operation.subtree_subset_of_mem hop o (Operation.mem_subtree_iff.2 contains)
    · refine (covers.values _).2 ⟨_, List.mem_of_getElem? (i := 2) rfl, reached, sum, by simp [Block.allOperations], var 5 "y", ?_, rfl⟩
      exact Operation.mem_subtree_iff.1 (by simp [sum, Operation.subtree_eq, Operation.operands])
    · exact (covers.before _).2 ⟨_, List.mem_of_getElem? (i := 2) rfl, reached, constant 10 0, by simp [Block.allOperations], rfl⟩
  · obtain ⟨sol, ledger, h⟩ :=
      exists_of_isOk (r := (contents.solve (context _ false)).run (Ledger.start false)) (by decide +kernel)
    refine ⟨sol, ledger, h, ((onAll _ _ _ _ rfl h).count fun b hb => ?_).trans (by decide +kernel)⟩
    exact (valid false).mem_reversePostOrder.1 (by revert b; decide)

end Analysis

end Dataflow
