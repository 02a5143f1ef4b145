import Dataflow.Proofs.Solver.Once
import Dataflow.Proofs.Visit.Names

/-!
# How many sweeps it takes

Which reverse post-order the blocks are swept in depends on the order in which the walk takes branches. Over an acyclic graph
any of them will do: the solver ends with the second sweep, and has visited each block that control can reach once.

## What is proved

`Graph.Forward` says what one expects of the order of sweeps, and `Analysis.SettlesInTwo` what one expects of the sweeps.
Both hold of every reverse post-order, for every analysis and every configuration (`Analysis.sweeps_end`).
-/

namespace Dataflow

variable {V : Type} [DecidableEq V]

namespace Graph

/-- An order of those blocks that control can reach, each once, from the entry on, and each before its successors unless they
lead back to it. -/
structure Forward (g : Graph) (order : List BlockId) : Prop where
  /-- The blocks are those that control can reach. -/
  mem_iff : ∀ i, i ∈ order ↔ g.Reachable i
  /-- Each is there once. -/
  nodup : order.Nodup
  /-- The entry comes first. -/
  first : order.head? = some entry
  /-- Control goes forward unless it comes back. -/
  forward : ∀ i j, g.Reachable i → g.Reachable j → j ∈ g.successors i → ¬g.Leads j i → order.idxOf i < order.idxOf j

theorem IsReversePostOrder.forward {g : Graph} {order : List BlockId} (h : g.IsReversePostOrder order) : g.Forward order where
  mem_iff _ := h.mem_iff
  nodup := h.nodup
  first := h.head?_eq
  forward _ _ hi _ hj back := h.idxOf_lt_idxOf hi hj back

/-- Each block that control can reach was visited once, and no other block. -/
structure EachOnce (g : Graph) (visits : FinMap BlockId Nat) : Prop where
  /-- Those that control can reach. -/
  visited : ∀ i, g.Reachable i → visits.find? i = some 1
  /-- The others. -/
  unvisited : ∀ i, ¬g.Reachable i → visits.find? i = none

end Graph

namespace Analysis

variable {A : Analysis V} {ctx : Context V} {usual : Call V → Visit V V} {initial : State V} {order : List Block}

/-- Sweeps in an order are one visit of each block in turn and nothing else. If all visits succeed, there were two sweeps. -/
def SettlesInTwo (A : Analysis V) (ctx : Context V) (order : List Block) : Prop :=
  ∀ usual initial limit m,
    ExceptT.run (A.settle ctx usual initial order (limit + 2) Progress.start) m =
        ExceptT.run (A.settleTwice ctx usual initial order) m ∧
      ∀ p m', ExceptT.run (A.settle ctx usual initial order (limit + 2) Progress.start) m = (.ok p, m') →
        p.passes = 2 ∧ ctx.graph.EachOnce p.visits

/-- Some blocks were visited once, and no others. -/
def Counted (done : List Block) (p : Progress V) (_ : Machine V) : Prop :=
  ∀ i, p.visits.find? i = if i ∈ done.map (·.id) then some 1 else none

omit [DecidableEq V] in
/-- A block is counted when it is visited, for the first time. -/
theorem continues_counted (top : ctx.graph.Topological order) : Continues A ctx usual initial order Counted := by
  intro done b rest p m s split _ counted _ out m' _ i
  have fresh : p.visits.find? b.id = none := by
    rw [counted, if_neg]
    intro again
    obtain ⟨c, hc, same⟩ := List.mem_map.1 again
    exact top.ne split c hc same
  have count : (p.enter b.id s).visits = p.visits.insert b.id 1 := by
    rw [Progress.enter, Progress.visitsOf, fresh]
    rfl
  show (p.enter b.id s).visits.find? i = _
  rw [count]
  by_cases same : i = b.id
  · rw [same, FinMap.find?_insert_self, if_pos (by simp)]
  · rw [FinMap.find?_insert_ne _ _ same, counted]
    simp [same]

omit [DecidableEq V] in
theorem Counted.eachOnce (top : ctx.graph.Topological order) (valid : ctx.graph.Valid) {p : Progress V} {m : Machine V}
    (counted : Counted order p m) : ctx.graph.EachOnce p.visits := by
  refine ⟨fun i hi => ?_, fun i hi => ?_⟩
  · obtain ⟨b, hb⟩ := valid.exists_of_reachable hi
    obtain rfl := valid.id_of_block? hb
    rw [counted, if_pos (List.mem_map_of_mem (top.mem_iff.2 ⟨Graph.mem_of_block? hb, hi⟩))]
  · rw [counted, if_neg]
    intro mem
    obtain ⟨b, hb, rfl⟩ := List.mem_map.1 mem
    exact hi (top.mem_iff.1 hb).2

theorem settlesInTwo (valid : ctx.graph.Valid) (top : ctx.graph.Topological order) : A.SettlesInTwo ctx order := by
  intro usual initial limit m
  refine ⟨run_settle_eq valid top limit m, fun p m' hrun => ?_⟩
  obtain ⟨p, rfl, -, counted⟩ := settle_once valid top (continues_counted top) (fun _ => rfl) limit p m' hrun
  exact ⟨rfl, counted.eachOnce top valid⟩

/-- **Sweeps go forward, and over an acyclic graph there are two.** The order of sweeps is a reverse post-order. Every such
order lists the blocks that control can reach once, the entry first, and a block before its successors unless they lead back to
it. If no block that control can reach leads back to itself, then any analysis visits each of them once, whatever the order of
branches, and its solution reports two sweeps. -/
theorem sweeps_end (A : Analysis V) (ctx : Context V) (valid : ctx.graph.Valid) :
    ctx.graph.IsReversePostOrder ctx.graph.reversePostOrder ∧
      (∀ order, ctx.graph.IsReversePostOrder order →
        ctx.graph.Forward order ∧ (ctx.graph.Acyclic → A.SettlesInTwo ctx (order.filterMap ctx.graph.block?))) ∧
      ∀ ledger ledger' sol, ctx.graph.Acyclic → (A.solve ctx).run ledger = (.ok sol, ledger') →
        sol.passes = 2 ∧ ctx.graph.EachOnce sol.visits := by
  refine ⟨valid.isReversePostOrder, fun order h => ⟨h.forward, fun acyclic => settlesInTwo valid (h.topological valid acyclic)⟩,
    fun ledger ledger' sol acyclic run => ?_⟩
  have top := topological_sweepOrder valid acyclic
  obtain ⟨initial, p, m, -, rfl, -, counted⟩ := solve_once run valid acyclic (fun _ _ _ => rfl)
    fun _ _ _ _ => continues_counted top
  exact ⟨rfl, counted.eachOnce top valid⟩

namespace Diamond

open Nodes

/-- A block that stores a number. -/
def storing (id : UInt64) (op value : UInt32) (n : Int64) (target : UInt64) : Block :=
  ⟨⟨id⟩, .block, [.assignment (info op int) (.localRef (info (op + 1) int) (Symbol.localVar "x" int))
    (.literal (info value int) (.integer n))], none, [⟨⟨target⟩, .regular⟩], []⟩

/-- Two ways from the entry, one of them with two branches, to a block that control cannot reach otherwise. -/
def graph : Graph := ⟨main, [], [
  ⟨⟨0⟩, .entry, [], some (.literal (info 0 none) (.bool true)),
    [⟨⟨2⟩, .whenTrue⟩, ⟨⟨3⟩, .whenFalse⟩, ⟨⟨2⟩, .whenFalse⟩], []⟩,
  storing 1 1 3 0 4, storing 2 4 6 1 4, storing 3 7 9 2 4, ⟨⟨4⟩, .block, [], none, [⟨⟨5⟩, .regular⟩], []⟩, .bare ⟨5⟩ .exit]⟩

/-- The body is run on its own. -/
def context : Context Content := Context.start graph Config.usual fun _ => none

theorem valid : graph.Valid := by decide

theorem acyclic : graph.Acyclic := Graph.acyclic_of_rank (·.toNat) (by decide) valid

/-- The order of a walk that takes the second way first. -/
def otherOrder : List BlockId := [⟨0⟩, ⟨2⟩, ⟨3⟩, ⟨4⟩, ⟨5⟩]

theorem isReversePostOrder_otherOrder : graph.IsReversePostOrder otherOrder := by
  have last : graph.DepthFirst [⟨5⟩] ⟨[⟨4⟩, ⟨3⟩, ⟨0⟩], []⟩ ⟨[⟨5⟩, ⟨4⟩, ⟨3⟩, ⟨0⟩], [⟨5⟩]⟩ :=
    .enter (by decide) (fun _ => Iff.rfl) (.done _) (.done _)
  have meeting : graph.DepthFirst [⟨4⟩] ⟨[⟨3⟩, ⟨0⟩], []⟩ ⟨[⟨5⟩, ⟨4⟩, ⟨3⟩, ⟨0⟩], [⟨4⟩, ⟨5⟩]⟩ :=
    .enter (by decide) (fun _ => Iff.rfl) last (.done _)
  have second : graph.DepthFirst [⟨2⟩] ⟨[⟨5⟩, ⟨4⟩, ⟨3⟩, ⟨0⟩], [⟨3⟩, ⟨4⟩, ⟨5⟩]⟩
      ⟨[⟨2⟩, ⟨5⟩, ⟨4⟩, ⟨3⟩, ⟨0⟩], [⟨2⟩, ⟨3⟩, ⟨4⟩, ⟨5⟩]⟩ :=
    .enter (by decide) (fun _ => Iff.rfl) (.pass (by decide) (.done _)) (.done _)
  have branches (j : BlockId) : j ∈ [(⟨3⟩ : BlockId), ⟨2⟩] ↔ j ∈ graph.successors ⟨0⟩ := by
    simp [Graph.successors, Graph.block?, graph, BlockId.toNat, Block.successors, or_comm]
  have first : graph.DepthFirst [⟨3⟩, ⟨2⟩] ⟨[⟨0⟩], []⟩ ⟨[⟨2⟩, ⟨5⟩, ⟨4⟩, ⟨3⟩, ⟨0⟩], [⟨2⟩, ⟨3⟩, ⟨4⟩, ⟨5⟩]⟩ :=
    .enter (by decide) (fun _ => Iff.rfl) meeting second
  exact ⟨_, .enter (by decide) branches first (.done _), rfl⟩

end Diamond

open Nodes Diamond in
/-- The solver takes one way first and another walk the other way. Both orders put the block where they meet behind them, and
two sweeps suffice. -/
theorem sweeps_end_diamond : graph.reversePostOrder = [⟨0⟩, ⟨3⟩, ⟨2⟩, ⟨4⟩, ⟨5⟩] ∧ graph.IsReversePostOrder otherOrder ∧
    graph.Forward otherOrder ∧ contents.SettlesInTwo context (otherOrder.filterMap graph.block?) ∧
      ∃ sol ledger, (contents.solve context).run (Ledger.start false) = (.ok sol, ledger) ∧ sol.passes = 2 ∧
        sol.visits.find? ⟨4⟩ = some 1 ∧ sol.visits.find? ⟨1⟩ = none ∧ graph.EachOnce sol.visits := by
  obtain ⟨own, any, solves⟩ := sweeps_end contents context valid
  obtain ⟨forward, settles⟩ := any otherOrder isReversePostOrder_otherOrder
  obtain ⟨sol, ledger, run⟩ :=
    exists_of_isOk (r := (contents.solve context).run (Ledger.start false)) (by decide +kernel)
  obtain ⟨passes, once⟩ := solves _ _ _ acyclic run
  have dead : ¬graph.Reachable ⟨1⟩ := fun h => absurd (own.mem_iff.2 h) (by decide)
  have live : graph.Reachable ⟨4⟩ := own.mem_iff.1 (by decide)
  exact ⟨by decide, isReversePostOrder_otherOrder, forward, settles acyclic, sol, ledger, run, passes, once.visited _ live,
    once.unvisited _ dead, once⟩

end Analysis

end Dataflow
