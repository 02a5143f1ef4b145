import Dataflow.Proofs.Contracts.Analyses
import Dataflow.Proofs.Locals.Captures
import Dataflow.Proofs.Solver.Once

/-!
# Stores by way of temporaries where paths meet

A temporary may capture the location of one variable on one path and that of another one on another path. Where the paths
meet it has one binding still, for bindings are not merged: the one that was made last in the order of sweeps. So a store
by way of the temporary goes to one variable only, and the others hold what they held before, as if they could not be
meant.

## The notions

* `State.MayHold`: what an entity holds has absorbed a value.
* `Graph.evaluatedBefore`: what is evaluated before a block.
* `CapturedStore.Remains`: after the store a variable is left alone.
* `JoiningStore`: a run over an acyclic body with such a store.
* `JoiningStore.GoesTo`: the store goes to a variable and to no other one.
* `JoiningStore.StoresEach`: the store goes to all variables that the temporary may stand for.

## What is proved

The store goes to the variable that was captured last in the order of sweeps, in the analyses of literal content and of
references (`Analysis.analyses_storeLast`). Another one does not get the value, although it is captured on a path to the
store (`Analysis.not_contents_storesEach`).
-/

namespace Dataflow

variable {V : Type}

/-! ### What an entity may hold -/

/-- What one of two values has absorbed their merge has. -/
def Domain.Accrues (D : Domain V) (valid : V → Prop) : Prop :=
  ∀ v a b, valid v → valid a → valid b → D.merge v a = a ∨ D.merge v b = b → D.merge v (D.merge a b) = D.merge a b

theorem contents_accrue : Domain.contents.Accrues fun _ => True :=
  fun _ _ _ _ _ _ absorbed => Content.merge_merge absorbed

theorem pointsTo_accrue : Domain.pointsTo.Accrues PointsTo.Valid :=
  fun _ _ _ hv ha hb absorbed => PointsTo.isSemilattice.merge_merge ha hb hv absorbed

namespace State

variable {D : Domain V} {e : Entity} {v : V} {s t : State V}

/-- What an entity holds has absorbed a value. -/
def MayHold (D : Domain V) (e : Entity) (v : V) (s : State V) : Prop := ∃ w, s.find? e = some w ∧ D.merge v w = w

/-- What an entity may hold in one of two states it may hold in their merge. -/
theorem MayHold.merge {C : Constructors V} {valid : V → Prop} (U : C.Upholds D valid) (accrues : D.Accrues valid)
    (hv : valid v) (hs : s.Each valid) (ht : t.Each valid) (h : MayHold D e v s ∨ MayHold D e v t) :
    MayHold D e v (State.merge D s t) := by
  refine ⟨_, (find?_merge D s t e).trans (if_pos ?_), accrues _ _ _ hv (U.valueOr hs e).2 (U.valueOr ht e).2 ?_⟩
  · exact h.imp (fun ⟨_, hw, _⟩ => by simp [hw]) fun ⟨_, hw, _⟩ => by simp [hw]
  · refine h.imp (fun ⟨w, hw, absorbed⟩ => ?_) fun ⟨w, hw, absorbed⟩ => ?_
    · rwa [valueOr_of_find? D hw]
    · rwa [valueOr_of_find? D hw]

end State

/-! ### Runs -/

/-- What is evaluated before a block: the operations of the blocks that are swept before. -/
def Graph.evaluatedBefore (g : Graph) (b : Block) : List Operation :=
  Operation.subtrees (((Analysis.sweepOrder g).takeWhile fun c => c.id ≠ b.id).flatMap Block.allOperations)

theorem Graph.Valid.evaluatedBefore_eq {g : Graph} (valid : g.Valid) {done rest : List Block} {b : Block}
    (split : Analysis.sweepOrder g = done ++ b :: rest) :
    g.evaluatedBefore b = Operation.subtrees (done.flatMap Block.allOperations) := by
  unfold Graph.evaluatedBefore
  rw [split, List.takeWhile_append_of_pos, List.takeWhile_cons_of_neg, List.append_nil]
  · simp
  · intro c hc
    simpa using Analysis.ne_of_sweepOrder_eq valid split c hc

namespace CapturedStore

variable {A : Analysis V} {ctx : Context V} {usual : Call V → Visit V V} {initial : State V} {m : Machine V}

theorem Given.congr {S : CapturedStore ctx.graph} {l : List Operation} {out : State V} {n n' : Notes V}
    (h : S.Given l out n) (entities : n'.entities.find? S.ref.id = n.entities.find? S.ref.id)
    (values : n'.values.find? S.info.id = n.values.find? S.info.id)
    (before : n'.before.find? S.root.id = n.before.find? S.root.id) : S.Given l out n' := by
  obtain ⟨s, v, hs, hv, gives⟩ := h.gives
  exact ⟨entities.trans h.entity, s, v, before.trans hs, values.trans hv, gives⟩

/-- What holds when some blocks were visited: the temporary stands for what they have captured last, and the store has
taken place if its block was visited. -/
structure Progressed (S : CapturedStore ctx.graph) (done : List Block) (p : Progress V) (m : Machine V) : Prop where
  /-- Nothing is taken for a variable that is not. -/
  tidy : Tidy ctx m
  /-- What the temporary stands for. -/
  binds : m.notes.resolver.bindings.find? S.capture =
    (Operation.lastCaptured S.capture (Operation.subtrees (done.flatMap Block.allOperations))).map ctx.variable
  /-- Variables that blocks do not store into. -/
  spares : ∀ b ∈ done, ∀ s out, p.entries.find? b.id = some s → p.exits.find? b.id = some out →
    ∀ x aliases, ctx.graph.Covers x aliases →
      (∀ op ∈ Operation.subtrees b.allOperations, op.mayStore x aliases = false) → x ∉ b.leavingScope →
        out.find? (ctx.variable x) = s.find? (ctx.variable x)
  /-- The store. -/
  given : S.block ∈ done → ∃ out, p.exits.find? S.block.id = some out ∧
    S.Given (ctx.graph.evaluatedBefore S.block) out m.notes

theorem progressed_start (S : CapturedStore ctx.graph) (p : Progress V)
    (h : m.notes = Notes.start (Resolver.start ctx.owner ctx.tracksUnknown)) : S.Progressed [] p m where
  tidy := tidy_of_start h
  binds := by
    rw [h]
    rfl
  spares _ hb := absurd hb List.not_mem_nil
  given hb := absurd hb List.not_mem_nil

/-- The visit of the next block. -/
theorem continues [DecidableEq V] (S : CapturedStore ctx.graph) (valid : ctx.graph.Valid)
    (distinct : ctx.graph.DistinctIds) (names : A.KeepsNames ctx) (preserves : A.PreservesLocals ctx)
    (husual : Analysis.IsUsual A ctx usual) :
    Analysis.Continues A ctx usual initial (Analysis.sweepOrder ctx.graph) S.Progressed := by
  intro done b rest p m s split once h _ out m' hrun
  have swept : b ∈ Analysis.sweepOrder ctx.graph := split ▸ List.mem_append_right _ List.mem_cons_self
  have hb := Analysis.mem_blocks_of_mem_sweepOrder swept
  have traces := Analysis.runBlock_traces distinct names husual S.captures preserves hb s h.tidy out m' hrun
  have fresh := Analysis.ne_of_sweepOrder_eq valid split
  refine ⟨traces.tidy, ?_, fun c hc r t hr ht => ?_, fun hS => ?_⟩
  · rw [traces.binds, h.binds, List.flatMap_append, Operation.subtrees_append, Operation.lastCaptured_append, Option.map_or,
      List.flatMap_singleton]
  · rcases List.mem_append.1 hc with hc | hc
    · rw [Progress.leave, Progress.enter, FinMap.find?_insert_ne _ _ (fresh c hc)] at hr
      rw [Progress.leave, Progress.enter, FinMap.find?_insert_ne _ _ (fresh c hc)] at ht
      exact h.spares c hc r t hr ht
    · obtain rfl := List.mem_singleton.1 hc
      rw [Progress.leave, Progress.enter, FinMap.find?_insert_self, Option.some.injEq] at hr ht
      exact hr ▸ ht ▸ traces.spares
  · rcases List.mem_append.1 hS with hS | hS
    · obtain ⟨t, ht, given⟩ := h.given hS
      have other := fresh S.block hS
      have away {o : Operation} (ho : o ∈ S.root.subtree) : o.id ∉ Operation.idsIn b.allOperations := by
        refine distinct.not_mem_of_ne S.mem hb (ne_of_apply_ne _ other) (Operation.id_mem_idsIn ?_)
        have listed : S.root ∈ S.block.allOperations := S.operations ▸ List.mem_append_right _ List.mem_cons_self
        exact Operation.subtree_subset_of_mem listed o ho
      refine ⟨t, (FinMap.find?_insert_ne _ _ other).trans ht, given.congr (traces.entities _ ?_) (traces.values _ ?_)
        (traces.before _ ?_)⟩
      · exact away (o := .captureRef S.ref S.capture) (by rw [S.subtree_root]; simp)
      · exact away (o := S.store) (by rw [S.subtree_root]; simp)
      · exact away S.root.mem_subtree_self
    · obtain rfl := List.mem_singleton.1 hS
      refine ⟨out, FinMap.find?_insert_self _ _ _, ?_⟩
      refine S.runBlock_given distinct names husual preserves s h.tidy ?_ out m' hrun
      rw [valid.evaluatedBefore_eq split, h.binds]

/-- The variable whose location the temporary captures last before the store, in the order of sweeps. -/
def bound {g : Graph} (S : CapturedStore g) : Option Symbol :=
  Operation.lastCaptured S.capture (g.evaluatedBefore S.block ++ Operation.subtrees S.before ++ S.first)

/-- After the store a variable is left alone, up to the end of the body. -/
structure Remains {g : Graph} (S : CapturedStore g) (x : Symbol) (aliases : List CaptureId) : Prop
    extends S.Stays x aliases where
  /-- Later blocks do not store into it. -/
  stores : ∀ b ∈ g.blocks, g.Leads S.block.id b.id → b.id ≠ S.block.id →
    ∀ op ∈ Operation.subtrees b.allOperations, op.mayStore x aliases = false
  /-- Its scope does not end there. -/
  scopes : ∀ b ∈ g.blocks, g.Leads S.block.id b.id → b.id ≠ S.block.id → x ∉ b.leavingScope

theorem target_of_bound {S : CapturedStore ctx.graph} {y : Symbol} (h : S.bound = some y) :
    S.target (ctx.graph.evaluatedBefore S.block ++ Operation.subtrees S.before ++ S.first) = ctx.variable y := by
  rw [target, show Operation.lastCaptured _ _ = some y from h]
  rfl

/-- What a variable holds at the start of a later block it holds at the end, if it is left alone. -/
theorem Progressed.later {S : CapturedStore ctx.graph} {p : Progress V}
    (h : S.Progressed (Analysis.sweepOrder ctx.graph) p m) (valid : ctx.graph.Valid)
    (reachable : ctx.graph.Reachable S.block.id) {x : Symbol} {aliases : List CaptureId} (remains : S.Remains x aliases)
    (P : Option V → Prop) : ∀ c ∈ ctx.graph.blocks, ctx.graph.Leads S.block.id c.id → c.id ≠ S.block.id → ∀ s t,
      p.entries.find? c.id = some s → p.exits.find? c.id = some t → P (s.find? (ctx.variable x)) →
        P (t.find? (ctx.variable x)) := by
  intro c hc leads other s t hs ht held
  have visited := Analysis.mem_sweepOrder valid (reachable.leads leads) (valid.block?_id hc)
  rw [h.spares c visited s t hs ht x aliases remains.covers (remains.stores c hc leads other)
    (remains.scopes c hc leads other)]
  exact held

end CapturedStore

theorem Operation.isSome_lastCaptured {c : CaptureId} {l : List Operation} {op : Operation} (h : op ∈ l)
    (hop : (op.captures? c).isSome = true) : (lastCaptured c l).isSome = true := by
  obtain ⟨x, hx⟩ := Option.isSome_iff_exists.1 hop
  exact List.getLast?_isSome.2 (List.ne_nil_of_mem (List.mem_filterMap.2 ⟨op, h, hx⟩))

/-- A run over an acyclic body, and a store by way of a temporary that an earlier block captures a variable in. -/
structure JoiningStore [DecidableEq V] (A : Analysis V) (Q : Context V → Prop) (valid : V → Prop) where
  /-- The context of the run. -/
  ctx : Context V
  /-- The store. -/
  store : CapturedStore ctx.graph
  /-- The earlier block. -/
  earlier : Block
  /-- What the capture there carries. -/
  info : OperationInfo
  /-- What is captured. -/
  target : Operation
  /-- The ledger before the run. -/
  ledger : Ledger V
  /-- The ledger after it. -/
  ledger' : Ledger V
  /-- The solution. -/
  solution : Solution V
  /-- The context is one of some. -/
  suits : Q ctx
  /-- The blocks make a graph. -/
  graph : ctx.graph.Valid
  /-- Identifiers tell the operations apart. -/
  distinct : ctx.graph.DistinctIds
  /-- Control does not come back to a block. -/
  acyclic : ctx.graph.Acyclic
  /-- The earlier block is one of the body. -/
  mem : earlier ∈ ctx.graph.blocks
  /-- Control gets to it. -/
  reachable : ctx.graph.Reachable earlier.id
  /-- It is another block than that with the store. -/
  other : earlier ≠ store.block
  /-- Control gets from there to the store. -/
  leads : ctx.graph.Leads earlier.id store.block.id
  /-- It captures a location in the temporary. -/
  captures : Operation.capture info store.capture target true ∈ Operation.subtrees earlier.allOperations
  /-- Control gets from the store to the end. -/
  finishes : ctx.graph.Leads store.block.id ctx.graph.exit
  /-- A caller passes valid values. -/
  entry : ∀ s, ctx.entry = some s → s.Each valid
  /-- What is on file is valid. -/
  files : ledger.Files (Solution.Lasts (State.Each valid) valid)
  /-- The run. -/
  run : (A.solve ctx).run ledger = (.ok solution, ledger')

/-- On some way to the end of a block the temporary captures the location of a variable, and of no other one after that. -/
inductive Graph.Captures (g : Graph) (c : CaptureId) (x : Symbol) : Block → Prop
  /-- The block captures it last. -/
  | here {b : Block} : b ∈ g.blocks → g.Reachable b.id →
      Operation.lastCaptured c (Operation.subtrees b.allOperations) = some x → Captures g c x b
  /-- The block captures nothing in the temporary. -/
  | passed {b b' : Block} : Captures g c x b → b' ∈ g.blocks → b'.id ∈ b.successors →
      Operation.lastCaptured c (Operation.subtrees b'.allOperations) = none → Captures g c x b'

namespace JoiningStore

variable [DecidableEq V] {A : Analysis V} {Q : Context V → Prop} {valid : V → Prop} (J : JoiningStore A Q valid)

theorem reachable_store : J.ctx.graph.Reachable J.store.block.id := J.reachable.leads J.leads

theorem store_mem_sweepOrder : J.store.block ∈ Analysis.sweepOrder J.ctx.graph :=
  Analysis.mem_sweepOrder J.graph J.reachable_store (J.graph.block?_id J.store.mem)

/-- Some variable is captured before the store. -/
theorem exists_bound : ∃ y, J.store.bound = some y := by
  obtain ⟨done, rest, split⟩ := List.append_of_mem J.store_mem_sweepOrder
  have top := Analysis.topological_sweepOrder J.graph J.acyclic
  have before := (top.mem_of_leads J.graph (top.mem_iff.2 ⟨J.mem, J.reachable⟩) J.leads split rfl).resolve_left J.other
  have evaluated : Operation.capture J.info J.store.capture J.target true ∈ J.ctx.graph.evaluatedBefore J.store.block := by
    rw [J.graph.evaluatedBefore_eq split, Operation.subtrees_flatMap]
    exact List.mem_flatMap.2 ⟨_, before, J.captures⟩
  have listed := List.mem_append_left J.store.first (List.mem_append_left (Operation.subtrees J.store.before) evaluated)
  refine Option.isSome_iff_exists.1 (Operation.isSome_lastCaptured listed ?_)
  rw [Operation.captures?, if_pos rfl]
  exact J.store.captures J.info J.target (Graph.subtrees_allOperations_subset J.mem _ J.captures)

/-- The store gives a value to one variable and to no other one. There is the state before it, and the one at the end. -/
structure GoesTo (y : Symbol) (v : V) (s fin : State V) : Prop where
  /-- What the target of the store stands for. -/
  entity : J.solution.entityAt J.store.ref.id = some (J.ctx.variable y)
  /-- The value. -/
  value : J.solution.valueAt J.store.info.id = some v
  /-- The state before the operation with the store. -/
  before : J.solution.stateBefore J.store.root.id = some s
  /-- The state at the end. -/
  finish : J.solution.finish = some fin
  /-- The variable may hold the value at the end. -/
  target : ∀ aliases, J.store.Remains y aliases → fin.MayHold A.domain (J.ctx.variable y) v
  /-- If control gets to the end only by way of the store, other variables hold there what they held before. -/
  others : ∀ x aliases, x ≠ y → J.store.Remains x aliases → (∀ op ∈ J.store.others, op.mayStore x aliases = false) →
    ¬J.ctx.graph.Avoids J.store.block.id J.ctx.graph.exit →
      fin.find? (J.ctx.variable x) = s.find? (J.ctx.variable x)

/-- The store goes to the variable that was captured last. -/
theorem goesTo {B : Analysis V} {C : Constructors V} (U : A.Upright B C valid) (accrues : A.domain.Accrues valid)
    (idem : ∀ v, A.domain.merge v v = v) (names : A.KeepsNames J.ctx) (preserves : A.PreservesLocals J.ctx) :
    ∃ y v s fin, J.store.bound = some y ∧ J.GoesTo y v s fin := by
  obtain ⟨y, bound⟩ := J.exists_bound
  have exits := (U.lasts J.entry J.files J.run).exits
  obtain ⟨initial, p, m, -, solution, once, progressed⟩ := Analysis.solve_once J.run J.graph J.acyclic
    (fun _ h => J.store.progressed_start _ h)
    fun _ husual _ _ => J.store.continues J.graph J.distinct names preserves husual
  rw [solution] at exits
  obtain ⟨out, hout, entity, s, v, before, value, gives⟩ := progressed.given J.store_mem_sweepOrder
  rw [CapturedStore.target_of_bound bound] at entity gives
  have ends := J.reachable_store.leads J.finishes
  obtain ⟨last, hlast⟩ := J.graph.exists_of_reachable ends
  have visited := Analysis.mem_sweepOrder J.graph ends hlast
  obtain ⟨-, fin, -, -, finish⟩ := once.visited last visited
  have exit := J.graph.id_of_block? hlast
  refine ⟨y, v, s, fin, bound, ?_⟩
  refine
    { entity := by rw [solution]; exact entity
      value := by rw [solution]; exact value
      before := by rw [solution]; exact before
      finish := by rw [solution]; exact (congrArg p.exits.find? exit.symm).trans finish
      target := fun aliases remains => ?_
      others := fun x aliases other remains spares dominates => ?_ }
  · have stored := gives.target y aliases remains.toStays rfl
    have good := exits _ _ hout _ _ stored
    obtain ⟨t, ht, holds⟩ := once.of_leads J.graph J.store_mem_sweepOrder hout ⟨v, stored, idem v⟩
      (progressed.later J.graph J.reachable_store remains fun w => ∃ u, w = some u ∧ A.domain.merge v u = u)
      (fun s t hs ht => (U.upholds.mergeStates hs ht).2)
      (fun s t hs ht h => State.MayHold.merge U.upholds accrues good hs ht h) exits J.finishes
    rw [← exit, finish] at ht
    exact Option.some.inj ht ▸ holds
  · have kept := gives.others x aliases remains.toStays spares fun same => other (Context.variable_inj same)
    exact once.of_not_avoids J.graph hout (P := fun t => t.find? (J.ctx.variable x) = s.find? (J.ctx.variable x)) kept
      (progressed.later J.graph J.reachable_store remains (· = s.find? (J.ctx.variable x))) J.acyclic
      (fun a b ha hb => State.find?_merge_of_same idem ha hb) last visited (exit ▸ dominates) fin finish

/-- At the end a variable may hold what was stored. -/
def Reaches (x : Symbol) : Prop :=
  ∃ v fin, J.solution.valueAt J.store.info.id = some v ∧ J.solution.finish = some fin ∧
    fin.MayHold A.domain (J.ctx.variable x) v

/-- Before the store it may hold that already. -/
def HeldBefore (x : Symbol) : Prop :=
  ∃ v s, J.solution.valueAt J.store.info.id = some v ∧ J.solution.stateBefore J.store.root.id = some s ∧
    s.MayHold A.domain (J.ctx.variable x) v

/-- The store gives its value to each variable that the temporary may stand for. -/
def StoresEach : Prop :=
  ∀ b x aliases, J.ctx.graph.Captures J.store.capture x b → J.store.block.id ∈ b.successors →
    Operation.lastCaptured J.store.capture (Operation.subtrees J.store.before ++ J.store.first) = none →
      J.store.Remains x aliases → J.Reaches x

end JoiningStore

namespace Analysis

/-- Stores by way of temporaries reach a variable if it was captured last, or if it may hold the value before. -/
def StoresLast [DecidableEq V] (A : Analysis V) (Q : Context V → Prop) (valid : V → Prop) (x : Symbol)
    (aliases : List CaptureId) : Prop :=
  ∀ J : JoiningStore A Q valid,
    (∃ y, J.store.bound = some y ∧ J.solution.entityAt J.store.ref.id = some (J.ctx.variable y)) ∧
    (J.store.Remains x aliases → (∀ op ∈ J.store.others, op.mayStore x aliases = false) →
      (J.store.bound = some x → J.Reaches x) ∧
      (¬J.ctx.graph.Avoids J.store.block.id J.ctx.graph.exit → (J.Reaches x ↔ J.store.bound = some x ∨ J.HeldBefore x)))

theorem storesLast [DecidableEq V] {A B : Analysis V} {C : Constructors V} {Q : Context V → Prop} {valid : V → Prop}
    (U : A.Upright B C valid) (accrues : A.domain.Accrues valid) (idem : ∀ v, A.domain.merge v v = v)
    (names : ∀ ctx, A.KeepsNames ctx) (preserves : ∀ ctx, Q ctx → A.PreservesLocals ctx) (x : Symbol)
    (aliases : List CaptureId) : A.StoresLast Q valid x aliases := by
  intro J
  obtain ⟨y, v, s, fin, bound, goes⟩ := J.goesTo U accrues idem (names _) (preserves _ J.suits)
  refine ⟨⟨y, bound, goes.entity⟩, fun remains spares => ?_⟩
  have last (same : J.store.bound = some x) : J.Reaches x := by
    obtain rfl := Option.some.inj (same.symm.trans bound)
    exact ⟨v, fin, goes.value, goes.finish, goes.target aliases remains⟩
  refine ⟨last, fun dominates => ⟨fun ⟨v', fin', value, finish, reaches⟩ => ?_, fun meant => meant.elim last ?_⟩⟩
  · obtain rfl := Option.some.inj (value.symm.trans goes.value)
    obtain rfl := Option.some.inj (finish.symm.trans goes.finish)
    by_cases same : x = y
    · exact .inl (same ▸ bound)
    · rw [State.MayHold, goes.others x aliases same remains spares dominates] at reaches
      exact .inr ⟨v', s, value, goes.before, reaches⟩
  · rintro ⟨v', s', value, before, held⟩
    obtain rfl := Option.some.inj (value.symm.trans goes.value)
    obtain rfl := Option.some.inj (before.symm.trans goes.before)
    by_cases same : x = y
    · exact last (same ▸ bound)
    · rw [State.MayHold, ← goes.others x aliases same remains spares dominates] at held
      exact ⟨v', fin, value, goes.finish, held⟩

/-- **A store by way of a temporary goes to one variable.** In an acyclic body it is the one whose location was captured
last in the order of sweeps, even if the temporary stands for another one on some way to the store. If control gets to the
end only by way of the store, the value reaches no other variable: one may hold it at the end only if it may before. -/
theorem analyses_storeLast (x : Symbol) (aliases : List CaptureId) :
    contents.StoresLast (·.copies = none) (fun _ => True) x aliases ∧
      pointsTo.StoresLast (fun _ => True) PointsTo.Valid x aliases := by
  constructor
  · exact storesLast contents_upright contents_accrue Content.merge_self contents_keepsNames
      (fun _ copies => contents_preservesLocals copies) x aliases
  · exact storesLast pointsTo_upright pointsTo_accrue PointsTo.merge_self pointsTo_keepsNames
      (fun ctx _ => pointsTo_preservesLocals ctx) x aliases

/-! ### Two ways to a store -/

namespace Fork

open Nodes

/-- A local with a number. -/
def number (id : UInt32) (name : String) : Operation := .localRef (info id int) (Symbol.localVar name int)

/-- Stores a number. -/
def put (id : UInt32) (target : Operation) (value : UInt32) (n : Int64) : Operation :=
  .assignment (info id int) target (.literal (info value int) (.integer n))

/-- Captures the location of a local. -/
def capture (id ref : UInt32) (name : String) : Operation := .capture (info id int) ⟨0⟩ (number ref name) true

/-- A block on one of the ways. -/
def branch (id : UInt64) (op : Operation) : Block := ⟨⟨id⟩, .block, [op], none, [⟨⟨3⟩, .regular⟩], []⟩

/-- Stores two by way of the temporary. -/
def store : Operation := put 13 (.captureRef (info 11 int) ⟨0⟩) 12 2

/-- Where the ways meet. -/
def meeting : Block := ⟨⟨3⟩, .block, [store], none, [⟨⟨4⟩, .regular⟩], []⟩

/-- One is stored into two locals, each of them is captured on one of two ways, and two is stored where the ways meet. -/
def graph : Graph := ⟨main, [], [
  ⟨⟨0⟩, .entry, [put 2 (number 0 "x") 1 1, put 5 (number 3 "y") 4 1], some (.literal (info 6 none) (.bool true)),
    [⟨⟨1⟩, .whenTrue⟩, ⟨⟨2⟩, .whenFalse⟩], []⟩,
  branch 1 (capture 8 7 "x"), branch 2 (capture 10 9 "y"), meeting, .bare ⟨4⟩ .exit]⟩

/-- The body is run on its own. -/
def context : Context Content := Context.start graph Config.usual fun _ => none

theorem valid : graph.Valid := by decide

theorem acyclic : graph.Acyclic :=
  Graph.acyclic_of_rank (·.toNat) (by decide) valid

/-- Control gets to the store by way of the first branch. -/
theorem leads : graph.Leads ⟨1⟩ ⟨3⟩ := .single (by decide)

/-- Control does not come back to the entry. -/
theorem not_leads_entry : ¬graph.Leads ⟨3⟩ ⟨0⟩ := fun back =>
  acyclic ⟨0⟩ ⟨1⟩ .entry (by decide) (leads.trans back)

/-- The store where the ways meet. -/
def captured : CapturedStore graph where
  block := meeting
  before := []
  root := store
  after := []
  first := []
  info := info 13 int
  ref := info 11 int
  capture := ⟨0⟩
  value := .literal (info 12 int) (.integer 2)
  last := []
  mem := by simp [graph]
  operations := rfl
  evaluated := by simp [store, put]
  captures := by
    intro i target h
    simp [graph, meeting, branch, store, put, capture, number, Graph.operations, Block.allOperations, Operation.subtrees,
      Operation.subtree, Block.bare] at h
    rcases h with ⟨-, rfl⟩ | ⟨-, rfl⟩ <;> rfl

/-- Whatever captures a location does so in the temporary. -/
theorem covers (x : Symbol) : graph.Covers x [⟨0⟩] := by
  intro i c target h _
  simp [graph, meeting, branch, store, put, capture, number, Graph.operations, Block.allOperations, Operation.subtrees,
    Operation.subtree, Block.bare] at h
  rcases h with ⟨-, rfl, -⟩ | ⟨-, rfl, -⟩ <;> simp

/-- Locals are left alone after the store. -/
theorem remains (x : Symbol) : captured.Remains x [⟨0⟩] := by
  have later : ∀ b ∈ graph.blocks, graph.Leads ⟨3⟩ b.id → b.id ≠ ⟨3⟩ →
      b.leavingScope = [] ∧ ∀ op ∈ Operation.subtrees b.allOperations, op.mayStore x [⟨0⟩] = false := by
    intro b hb leads other
    simp only [graph, List.mem_cons, List.not_mem_nil, or_false] at hb
    rcases hb with rfl | rfl | rfl | rfl | rfl
    · exact absurd leads not_leads_entry
    all_goals
      simp [branch, capture, number, Block.allOperations, Operation.subtrees, Operation.subtree, Operation.mayStore,
        Block.bare, meeting] at other ⊢
  refine ⟨⟨covers x, ?_, ?_, ?_⟩, fun b hb leads other => (later b hb leads other).2, fun b hb leads other => ?_⟩
  · exact fun _ h => absurd h List.not_mem_nil
  · exact fun _ h => absurd h List.not_mem_nil
  · exact List.not_mem_nil
  · rw [(later b hb leads other).1]
    exact List.not_mem_nil

/-- Control gets to the end only by way of the store. -/
theorem not_avoids : ¬graph.Avoids ⟨3⟩ ⟨4⟩ := by
  have early {i : BlockId} (h : graph.Avoids ⟨3⟩ i) : i = ⟨0⟩ ∨ i = ⟨1⟩ ∨ i = ⟨2⟩ := by
    induction h with
    | entry => exact .inl rfl
    | @branch j k _ hk other ih =>
      have next : ∀ k ∈ graph.successors ⟨0⟩ ++ graph.successors ⟨1⟩ ++ graph.successors ⟨2⟩,
          k = ⟨1⟩ ∨ k = ⟨2⟩ ∨ k = ⟨3⟩ := by decide
      have hk := next k (by rcases ih with rfl | rfl | rfl <;> simp [hk])
      rcases hk with rfl | rfl | rfl
      · exact .inr (.inl rfl)
      · exact .inr (.inr rfl)
      · exact absurd rfl other
  intro h
  have := early h
  simp at this

/-- The first of the ways. -/
def earlier : Block := branch 1 (capture 8 7 "x")

theorem distinct : graph.DistinctIds := by decide

theorem earlier_mem : earlier ∈ graph.blocks := by simp [earlier, graph]

theorem earlier_reachable : graph.Reachable earlier.id := .branch .entry (by decide)

theorem earlier_ne : earlier ≠ captured.block := by simp [earlier, captured, meeting, branch]

theorem earlier_captures : .capture (info 8 int) captured.capture (number 7 "x") true ∈
    Operation.subtrees earlier.allOperations := by
  simp [earlier, branch, capture, captured, Block.allOperations, Operation.subtrees, Operation.subtree]

/-- Control gets from the store to the end. -/
theorem finishes : graph.Leads ⟨3⟩ graph.exit := .single (by decide)

theorem entry_valid (s : State Content) (h : context.entry = some s) : s.Each fun _ => True :=
  nomatch h

/-- A run over the body. -/
def atMeeting {sol : Solution Content} {ledger : Ledger Content}
    (run : (contents.solve context).run (Ledger.start false) = (.ok sol, ledger)) :
    JoiningStore contents (·.copies = none) fun _ => True where
  ctx := context
  store := captured
  earlier := earlier
  info := info 8 int
  target := number 7 "x"
  ledger := Ledger.start false
  ledger' := ledger
  solution := sol
  suits := rfl
  graph := valid
  distinct := distinct
  acyclic := acyclic
  mem := earlier_mem
  reachable := earlier_reachable
  other := earlier_ne
  leads := leads
  captures := earlier_captures
  finishes := finishes
  entry := entry_valid
  files := Ledger.files_start _ _
  run := run

/-- The local that is captured on the first way. -/
def x : Symbol := Symbol.localVar "x" int

/-- The local that is captured on the second way. -/
def y : Symbol := Symbol.localVar "y" int

/-- What is stored first. -/
def one : Content := .ofLiteral (.integer 1)

/-- What is stored by way of the temporary. -/
def two : Content := .ofLiteral (.integer 2)

/-- The body is run with success, and the second local keeps what was stored first. -/
theorem exists_run : ∃ sol ledger before finish, (contents.solve context).run (Ledger.start false) = (.ok sol, ledger) ∧
    sol.valueAt ⟨13⟩ = some two ∧ sol.stateBefore ⟨13⟩ = some before ∧ sol.finish = some finish ∧
    before.find? (.localVar y main) = some one ∧ finish.find? (.localVar y main) = some one := by
  obtain ⟨sol, ledger, t, run, found, held⟩ := exists_of_inspected
    (r := (contents.solve context).run (Ledger.start false))
    (g := fun sol => (sol.valueAt ⟨13⟩).bind fun v => (sol.stateBefore ⟨13⟩).bind fun s => sol.finish.map fun f => (v, s, f))
    (f := fun t => (t.1, t.2.1.find? (.localVar y main), t.2.2.find? (.localVar y main)))
    (y := (two, some one, some one)) (by decide +kernel)
  obtain ⟨v, value, found⟩ := Option.bind_eq_some_iff.1 found
  obtain ⟨before, hbefore, found⟩ := Option.bind_eq_some_iff.1 found
  obtain ⟨finish, hfinish, rfl⟩ := Option.map_eq_some_iff.1 found
  simp only [Prod.mk.injEq] at held
  obtain ⟨rfl, earlier, later⟩ := held
  exact ⟨sol, ledger, before, finish, run, value, hbefore, hfinish, earlier, later⟩

end Fork

open Nodes Fork in
/-- Two is stored where the ways meet. It reaches the local that is captured on the first way, and not the other one. -/
theorem analyses_storeLast_fork : ∃ sol ledger, ∃ run : (contents.solve context).run (Ledger.start false) = (.ok sol, ledger),
    (atMeeting run).Reaches x ∧ ¬(atMeeting run).Reaches y := by
  obtain ⟨sol, ledger, before, finish, run, value, state, -, held, -⟩ := exists_run
  have bound : (atMeeting run).store.bound = some x := show captured.bound = some x by decide
  have spares (z : Symbol) : ∀ op ∈ (atMeeting run).store.others, op.mayStore z [⟨0⟩] = false := by
    intro op hop
    rw [List.mem_singleton.1 hop]
    rfl
  obtain ⟨-, first⟩ := (analyses_storeLast x [⟨0⟩]).1 (atMeeting run)
  obtain ⟨-, second⟩ := (analyses_storeLast y [⟨0⟩]).1 (atMeeting run)
  refine ⟨sol, ledger, run, (first (remains x) (spares x)).1 bound, fun reaches => ?_⟩
  rcases ((second (remains y) (spares y)).2 not_avoids).1 reaches with same | ⟨v, s, hv, hs, w, hw, absorbed⟩
  · exact absurd (Option.some.inj (bound.symm.trans same)) (by decide)
  · obtain rfl := Option.some.inj (value.symm.trans hv)
    obtain rfl := Option.some.inj (state.symm.trans hs)
    obtain rfl := Option.some.inj (held.symm.trans hw)
    exact absurd absorbed (by decide)

open Nodes Fork in
/-- The second local is captured on one of the ways to the store, and does not get the value. -/
theorem not_contents_storesEach : ∃ sol ledger,
    ∃ run : (contents.solve context).run (Ledger.start false) = (.ok sol, ledger), ¬(atMeeting run).StoresEach := by
  obtain ⟨sol, ledger, before, finish, run, value, -, state, -, held⟩ := exists_run
  refine ⟨sol, ledger, run, fun each => ?_⟩
  have second : graph.Captures ⟨0⟩ y (branch 2 (capture 10 9 "y")) :=
    .here (by simp [graph]) (.branch .entry (by decide)) (by decide)
  obtain ⟨v, fin, hv, hf, w, hw, absorbed⟩ := each _ y [⟨0⟩] second (List.mem_singleton.2 rfl) rfl (remains y)
  obtain rfl := Option.some.inj (value.symm.trans hv)
  obtain rfl := Option.some.inj (state.symm.trans hf)
  obtain rfl := Option.some.inj (held.symm.trans hw)
  exact absurd absorbed (by decide)

end Analysis

end Dataflow
