import Dataflow.Proofs.Graph.Order
import Dataflow.Proofs.Solver.Sweeps
import Mathlib.Data.List.Basic

/-!
# One visit of each block

Sweeps over an acyclic graph come to each block after its predecessors. So the first sweep visits every block in the state
that is to stay, and the second one visits none.

## What is proved

Two sweeps are one visit of each block in turn, followed by as many checks for cancellation (`Analysis.run_settle_eq`). What
holds of the blocks that were visited so far, and is kept by the visit of the next one, holds of the solution
(`Analysis.solve_once`). In the solution each block starts in the state that flows into it (`Progress.Once`): there is no
widening. So what holds at the end of a block holds later, too, if merges and the blocks in between keep it
(`Progress.Once.of_leads`, `Progress.Once.of_not_avoids`).
-/

namespace Dataflow

variable {V : Type}

/-- Some blocks and no others were visited, each of them in the state that flows into it. -/
structure Progress.Once (D : Domain V) (g : Graph) (initial : State V) (done : List Block) (p : Progress V) : Prop where
  /-- The states of a block that was visited. -/
  visited : ∀ b ∈ done, ∃ s out, p.inflow D g initial b = some s ∧ p.entries.find? b.id = some s ∧
    p.exits.find? b.id = some out
  /-- The other blocks have no states. -/
  others : ∀ i, (∀ b ∈ done, b.id ≠ i) → p.entries.find? i = none ∧ p.exits.find? i = none

namespace Progress

variable {D : Domain V} {g : Graph} {initial : State V} {order done rest : List Block} {b : Block} {p : Progress V}

theorem once_start (passes : Nat) : Once D g initial [] { (start : Progress V) with passes } :=
  ⟨fun _ hb => absurd hb List.not_mem_nil, fun _ _ => ⟨rfl, rfl⟩⟩

variable (valid : g.Valid) (top : g.Topological order) (split : order = done ++ b :: rest)
include valid top split

/-- What flows into a block that was visited stays as it is when the next block is visited. -/
theorem inflow_leave {c : Block} (hc : c ∈ done ++ [b]) (s out : State V) :
    ((p.enter b.id s).leave b.id out).inflow D g initial c = p.inflow D g initial c := by
  cases hentry : c.isEntry with
  | true => rw [inflow_of_isEntry hentry, inflow_of_isEntry hentry]
  | false =>
    rw [inflow_of_not_isEntry hentry, inflow_of_not_isEntry hentry]
    refine congrArg _ (List.filterMap_congr fun i hi => FinMap.find?_insert_ne _ _ ?_)
    rintro rfl
    exact top.not_mem_predecessors split valid hc hi

variable (once : p.Once D g initial done)
include once

/-- Some state flows into the next block. -/
theorem Once.exists_inflow : ∃ s, p.inflow D g initial b = some s := by
  obtain ⟨mem, hi⟩ := top.mem_iff.1 (split ▸ List.mem_append_right _ List.mem_cons_self : b ∈ order)
  cases hentry : b.isEntry with
  | true => exact ⟨initial, inflow_of_isEntry hentry⟩
  | false =>
    rw [inflow_of_not_isEntry hentry]
    generalize hj : b.id = j at hi
    cases hi with
    | entry =>
      rw [(valid.isEntry_iff mem).2 hj] at hentry
      cases hentry
    | @branch k _ hk hj' =>
      obtain ⟨c, hc⟩ := valid.exists_of_reachable hk
      obtain rfl := valid.id_of_block? hc
      have hmem := Graph.mem_of_block? hc
      rw [Graph.mem_successors hc] at hj'
      subst hj
      obtain ⟨-, out, -, -, hout⟩ := once.visited c (top.earlier split (top.mem_iff.2 ⟨hmem, hk⟩) hj')
      refine State.mergeAll_isSome (List.ne_nil_of_mem (List.mem_filterMap.2 ⟨c.id, ?_, hout⟩))
      exact Graph.mem_predecessors.2 ⟨c, hmem, rfl, hj'⟩

theorem Once.snoc {s : State V} (hs : p.inflow D g initial b = some s) (out : State V) :
    ((p.enter b.id s).leave b.id out).Once D g initial (done ++ [b]) := by
  refine ⟨fun c hc => ?_, fun i hi => ?_⟩
  · rw [inflow_leave valid top split hc]
    rcases List.mem_append.1 hc with hc | hc
    · obtain ⟨s', out', hs', hentry, hexit⟩ := once.visited c hc
      have other := top.ne split c hc
      exact ⟨s', out', hs', (FinMap.find?_insert_ne _ _ other).trans hentry, (FinMap.find?_insert_ne _ _ other).trans hexit⟩
    · obtain rfl := List.mem_singleton.1 hc
      exact ⟨s, out, hs, FinMap.find?_insert_self _ _ _, FinMap.find?_insert_self _ _ _⟩
  · obtain ⟨hentry, hexit⟩ := once.others i fun c hc => hi c (List.mem_append_left _ hc)
    have other : i ≠ b.id := (hi b (List.mem_append_right _ List.mem_cons_self)).symm
    exact ⟨(FinMap.find?_insert_ne _ _ other).trans hentry, (FinMap.find?_insert_ne _ _ other).trans hexit⟩

end Progress

namespace Analysis

/-! ### Sweeps as single visits -/

section

variable (A : Analysis V) (ctx : Context V) (usual : Call V → Visit V V) (initial : State V)

/-- Visits a block in the state that flows into it. -/
def visitOnce (p : Progress V) (b : Block) : Visit V (Progress V) := do
  Visit.checkCancelled
  let input := (p.inflow A.domain ctx.graph initial b).getD State.empty
  let output ← A.runBlock ctx usual b input
  return (p.enter b.id input).leave b.id output

/-- Visits each of some blocks in turn, and checks at each of them once more whether to go on. -/
def settleTwice (order : List Block) : Visit V (Progress V) := do
  let p ← order.foldlM (A.visitOnce ctx usual initial) { (Progress.start : Progress V) with passes := 1 }
  order.forM fun _ => Visit.checkCancelled
  return { p with passes := 2 }

end

variable {A : Analysis V} {ctx : Context V} {usual : Call V → Visit V V} {initial : State V}
variable {order done rest : List Block} {b : Block} {p : Progress V} {m : Machine V}

/-- The visit of the next block keeps what holds of the blocks that were visited so far. -/
def Continues (A : Analysis V) (ctx : Context V) (usual : Call V → Visit V V) (initial : State V) (order : List Block)
    (J : List Block → Progress V → Machine V → Prop) : Prop :=
  ∀ done b rest p m s, order = done ++ b :: rest → p.Once A.domain ctx.graph initial done → J done p m →
    p.inflow A.domain ctx.graph initial b = some s →
      Visit.Ensures (A.runBlock ctx usual b s) m fun out m' => J (done ++ [b]) ((p.enter b.id s).leave b.id out) m'

variable {J : List Block → Progress V → Machine V → Prop}

/-- The visits in turn. -/
theorem visits_once (valid : ctx.graph.Valid) (top : ctx.graph.Topological order)
    (continues : Continues A ctx usual initial order J) (split : order = done ++ rest)
    (once : p.Once A.domain ctx.graph initial done) (h : J done p m) :
    Visit.Ensures (rest.foldlM (A.visitOnce ctx usual initial) p) m fun p' m' =>
      p'.Once A.domain ctx.graph initial order ∧ J order p' m' := by
  induction rest generalizing done p m with
  | nil =>
    rw [List.append_nil] at split
    rw [List.foldlM_nil, Visit.ensures_pure, split]
    exact ⟨once, h⟩
  | cons b rest ih =>
    obtain ⟨s, hs⟩ := once.exists_inflow valid top split
    rw [List.foldlM_cons, Visit.ensures_bind]
    simp only [visitOnce, hs, Option.getD_some, Visit.ensures_bind, Visit.ensures_checkCancelled, Visit.ensures_pure]
    refine fun _ => (continues _ _ _ _ _ _ split once h hs).mono fun out m₁ visited => ?_
    exact ih (by simp [split]) (once.snoc valid top split hs out) visited

variable [DecidableEq V]

/-- The first sweep visits each block, and all of them are new. -/
theorem sweep_first (valid : ctx.graph.Valid) (top : ctx.graph.Topological order) (split : order = done ++ rest)
    (once : p.Once A.domain ctx.graph initial done) : A.sweep ctx usual initial rest p =
      (do let p' ← rest.foldlM (A.visitOnce ctx usual initial) p
          return (p', !rest.isEmpty)) := by
  induction rest generalizing done p with
  | nil => rw [sweep, List.foldlM_nil, pure_bind]; rfl
  | cons b rest ih =>
    obtain ⟨s, hs⟩ := once.exists_inflow valid top split
    obtain ⟨fresh, unfinished⟩ := once.others b.id (top.ne split)
    have next : p.nextEntry A.domain ctx.graph ctx.config.visitsBeforeWidening.toNat initial b = some s := by
      simp only [Progress.nextEntry, hs, fresh]
    have changes (out : State V) : (p.enter b.id s).exits.find? b.id ≠ some out := by
      rw [show (p.enter b.id s).exits.find? b.id = none from unfinished]
      exact Option.some_ne_none _ |>.symm
    simp only [sweep, visitBlock, next, List.foldlM_cons, visitOnce, hs, Option.getD_some, bind_assoc, if_neg (changes _),
      pure_bind]
    refine bind_congr fun _ => bind_congr fun out => ?_
    rw [ih (by simp [split]) (once.snoc valid top split hs out), bind_assoc]
    exact bind_congr fun p' => by rw [pure_bind, Bool.true_or]; rfl

/-- A further sweep visits no block. -/
theorem sweep_again (once : p.Once A.domain ctx.graph initial done) (hrest : ∀ b ∈ rest, b ∈ done) :
    A.sweep ctx usual initial rest p =
      (do rest.forM fun _ => Visit.checkCancelled
          return (p, false)) := by
  induction rest with
  | nil => rfl
  | cons b rest ih =>
    obtain ⟨s, -, hs, hentry, -⟩ := once.visited b (hrest b List.mem_cons_self)
    have next : p.nextEntry A.domain ctx.graph ctx.config.visitsBeforeWidening.toNat initial b = none := by
      simp only [Progress.nextEntry, hs, hentry, if_true]
    simp only [sweep, visitBlock, next, List.forM, bind_assoc, pure_bind, ih fun c hc => hrest c (List.mem_cons_of_mem _ hc),
      Bool.or_self]

/-- Sweeps over an acyclic graph end with the second one, whatever more are allowed. -/
theorem run_settle_eq (valid : ctx.graph.Valid) (top : ctx.graph.Topological order) (limit : Nat) (m : Machine V) :
    ExceptT.run (A.settle ctx usual initial order (limit + 2) Progress.start) m =
      ExceptT.run (A.settleTwice ctx usual initial order) m := by
  obtain ⟨first, hfirst, -⟩ := valid.block?_entry
  have mem : first ∈ order :=
    top.mem_iff.2 ⟨Graph.mem_of_block? hfirst, valid.id_of_block? hfirst ▸ .entry⟩
  have changes : (!order.isEmpty) = true := by simpa using List.ne_nil_of_mem mem
  have start : Progress.Once A.domain ctx.graph initial [] { (Progress.start : Progress V) with passes := 1 } :=
    Progress.once_start 1
  have continues : Continues A ctx usual initial order fun _ p _ => p.passes = 1 :=
    fun _ _ _ _ _ _ _ _ passes _ => fun _ _ _ => passes
  have visited := visits_once (m := m) valid top continues rfl start rfl
  rw [settle, show (Progress.start : Progress V).passes + 1 = 1 from rfl, sweep_first valid top rfl start, changes, settleTwice]
  simp only [bind_assoc, pure_bind, if_true]
  rw [Visit.run_bind, Visit.run_bind]
  rcases hrun : ExceptT.run (order.foldlM (A.visitOnce ctx usual initial) { (Progress.start : Progress V) with passes := 1 }) m
    with ⟨e | p, m₁⟩
  · rfl
  · obtain ⟨once, passes⟩ := visited p m₁ hrun
    dsimp only
    rw [settle, sweep_again (p := { p with passes := p.passes + 1 }) ⟨once.visited, once.others⟩ fun _ hb => hb, passes]
    simp only [bind_assoc, pure_bind, Bool.false_eq_true, if_false]

/-- What sweeps over an acyclic graph come to: whatever holds of the blocks visited so far, if the visit of the next one keeps
it, holds of all. -/
theorem settle_once (valid : ctx.graph.Valid) (top : ctx.graph.Topological order)
    (continues : Continues A ctx usual initial order J) (h : J [] { (Progress.start : Progress V) with passes := 1 } m)
    (limit : Nat) : Visit.Ensures (A.settle ctx usual initial order (limit + 2) Progress.start) m fun p m' =>
      ∃ p', p = { p' with passes := 2 } ∧ p'.Once A.domain ctx.graph initial order ∧ J order p' m' := by
  have twice : Visit.Ensures (A.settleTwice ctx usual initial order) m fun p m' =>
      ∃ p', p = { p' with passes := 2 } ∧ p'.Once A.domain ctx.graph initial order ∧ J order p' m' := by
    rw [settleTwice, Visit.ensures_bind]
    refine (visits_once valid top continues rfl (Progress.once_start 1) h).mono fun p' m₁ visited => ?_
    rw [Visit.ensures_bind]
    refine (Visit.ensures_forM (P := (· = m₁)) (fun _ _ m' hm => ?_) rfl).mono fun _ m₂ same => ?_
    · exact (Visit.ensures_checkCancelled _ _).2 fun _ => hm
    · exact (Visit.ensures_pure _ _ _).2 ⟨p', rfl, same ▸ visited⟩
  exact fun p m' hrun => twice p m' ((run_settle_eq valid top limit m).symm.trans hrun)

/-- What a solution of an acyclic graph is made of: whatever holds of the blocks visited so far, if the visit of the next
one keeps it, holds of all. -/
theorem solve_once {ledger ledger' : Ledger V} {sol : Solution V} (h : (A.solve ctx).run ledger = (.ok sol, ledger'))
    (valid : ctx.graph.Valid) (acyclic : ctx.graph.Acyclic)
    (start : ∀ m : Machine V, m.notes = Notes.start (Resolver.start ctx.owner ctx.tracksUnknown) →
      J [] { (Progress.start : Progress V) with passes := 1 } m)
    (continues : ∀ usual, IsUsual A ctx usual → ∀ initial, A.initialState ctx = .ok initial →
      Continues A ctx usual initial (sweepOrder ctx.graph) J) :
    ∃ initial p m, A.initialState ctx = .ok initial ∧ sol = A.solutionOf ctx { p with passes := 2 } m.notes ∧
      p.Once A.domain ctx.graph initial (sweepOrder ctx.graph) ∧ J (sweepOrder ctx.graph) p m := by
  obtain ⟨deeper, eq, -⟩ := exists_solveBody A ctx
  rw [eq] at h
  obtain ⟨p, m, hrun, rfl, -⟩ := run_solveBody_eq_ok.1 h
  have spec : Visit.Ensures (A.settleBody ctx (A.handleCall ctx deeper)) (startOf ctx ledger) fun p m' =>
      ∃ initial p', A.initialState ctx = .ok initial ∧ p = { p' with passes := 2 } ∧
        p'.Once A.domain ctx.graph initial (sweepOrder ctx.graph) ∧ J (sweepOrder ctx.graph) p' m' := by
    unfold settleBody
    rw [Visit.ensures_bind, Visit.ensures_check]
    intro initial hinitial
    refine (settle_once valid (topological_sweepOrder valid acyclic) (continues _ ⟨deeper, rfl⟩ initial hinitial) (start _ rfl)
      (UInt64.size - 2)).mono fun p m' ⟨p', after⟩ => ⟨initial, p', hinitial, after⟩
  obtain ⟨initial, p', hinitial, rfl, once, holds⟩ := spec p m hrun
  exact ⟨initial, p', m, hinitial, rfl, once, holds⟩

end Analysis

/-! ### From the end of a block to the ends of later ones -/

namespace Progress.Once

open Analysis

variable {D : Domain V} {g : Graph} {initial : State V} {p : Progress V} {b : Block} {out : State V} {P : State V → Prop}
variable (once : p.Once D g initial (sweepOrder g)) (valid : g.Valid) (hb : b ∈ sweepOrder g)
variable (hout : p.exits.find? b.id = some out) (holds : P out)
variable (later : ∀ c ∈ g.blocks, g.Leads b.id c.id → c.id ≠ b.id → ∀ s t, p.entries.find? c.id = some s →
  p.exits.find? c.id = some t → P s → P t)
include once valid hout holds later

include hb in
/-- What holds at the end of a block holds at the ends of those that it leads to, if merging with other states keeps it and
later blocks do. -/
theorem of_leads {G : State V → Prop} (hmerge : ∀ s t, G s → G t → G (State.merge D s t))
    (keeps : ∀ s t, G s → G t → P s ∨ P t → P (State.merge D s t)) (exits : ∀ i s, p.exits.find? i = some s → G s)
    {i : BlockId} (leads : g.Leads b.id i) : ∃ t, p.exits.find? i = some t ∧ P t := by
  induction leads with
  | refl => exact ⟨out, hout, holds⟩
  | @tail j k leads hk ih =>
    by_cases same : k = b.id
    · exact ⟨out, same ▸ hout, holds⟩
    obtain ⟨t, ht, before⟩ := ih
    have reachable := (reachable_of_mem_sweepOrder valid hb).leads leads
    obtain ⟨d, hd⟩ := valid.exists_of_reachable reachable
    obtain ⟨c, hc⟩ := valid.exists_of_reachable (reachable.branch hk)
    have leads' := Relation.ReflTransGen.tail leads hk
    obtain ⟨s, t', hs, hentry, hexit⟩ := once.visited c (mem_sweepOrder valid (reachable.branch hk) hc)
    obtain rfl := valid.id_of_block? hc
    rw [Graph.mem_successors hd] at hk
    have mem := Graph.mem_of_block? hd
    rw [inflow_of_not_isEntry (valid.isEntry_of_mem_successors mem hk hc)] at hs
    refine ⟨t', hexit, later c (Graph.mem_of_block? hc) leads' same s t' hentry hexit ?_⟩
    refine State.mergeAll_of_mem hmerge (fun s t hs ht h => keeps s t hs ht (.inl h))
      (fun s t hs ht h => keeps s t hs ht (.inr h)) (fun s hs => ?_) (List.mem_filterMap.2 ⟨j, ?_, ht⟩) before hs
    · obtain ⟨i, -, hi⟩ := List.mem_filterMap.1 hs
      exact exits i s hi
    · exact Graph.mem_predecessors.2 ⟨d, mem, valid.id_of_block? hd, hk⟩

/-- What holds at the end of a block holds at the ends of those that cannot be reached round it, if merging keeps it and
later blocks do. -/
theorem of_not_avoids (acyclic : g.Acyclic) (hmerge : ∀ s t, P s → P t → P (State.merge D s t)) :
    ∀ c ∈ sweepOrder g, ¬g.Avoids b.id c.id → ∀ t, p.exits.find? c.id = some t → P t := by
  refine (topological_sweepOrder valid acyclic).induction fun c hc ih avoids t ht => ?_
  by_cases same : c.id = b.id
  · rw [same, hout] at ht
    exact Option.some.inj ht ▸ holds
  have reachable := reachable_of_mem_sweepOrder valid hc
  have mem := mem_blocks_of_mem_sweepOrder hc
  obtain ⟨s, t', hs, hentry, hexit⟩ := once.visited c hc
  obtain rfl := Option.some.inj (ht.symm.trans hexit)
  refine later c mem ((reachable.avoids_or_leads b.id).resolve_left avoids) same s t hentry hexit ?_
  -- The entry and the successors of blocks that can be reached round the block can be so, too.
  have inside : c.isEntry = false := by
    refine Bool.eq_false_iff.2 fun entry => avoids ?_
    rw [(valid.isEntry_iff mem).1 entry] at same ⊢
    exact .entry same
  rw [inflow_of_not_isEntry inside] at hs
  refine State.mergeAll_induction hmerge (fun r hr => ?_) hs
  obtain ⟨i, hi, hr⟩ := List.mem_filterMap.1 hr
  obtain ⟨d, hd, rfl, branch⟩ := Graph.mem_predecessors.1 hi
  have visited : d ∈ sweepOrder g := by
    by_contra unvisited
    have none := (once.others d.id fun a ha same => unvisited
      (valid.id_inj (mem_blocks_of_mem_sweepOrder ha) hd same ▸ ha)).2
    rw [none] at hr
    cases hr
  refine ih d visited branch (fun round => avoids (round.branch ?_ same)) r hr
  exact (Graph.mem_successors (valid.block?_id hd)).2 branch

end Progress.Once

end Dataflow
