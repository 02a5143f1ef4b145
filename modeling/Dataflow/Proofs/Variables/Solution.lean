import Dataflow.Proofs.Solver.Sweeps
import Dataflow.Proofs.Variables.Walk

/-!
# Solutions and runs

A solution speaks of the runs of its body: if the hooks of an analysis are sound, then
whenever control is before an operation, the state that the solution has there fits the store,
and whatever is evaluated is described by the value that the solution has for it.

## What is proved

`run_explained`, by induction over runs. Its invariant is `Along`: from where control is in a
block to the end of the block, the solution has a state before each operation, and each
operation leads from stores that fit the state before it to stores that fit the next one.
Visits of blocks establish this (`runBlock_along`), visits of other blocks keep it because they
note nothing under the same identifiers, and so it holds of all blocks of a solution
(`along_kept`). At a branch the state at the end flows into the next block.
-/

namespace Dataflow

variable {V C : Type}

/-! ### Along the operations of a block -/

/-- From the state `s` on, the notes lead along some operations to a state with the property `End`. -/
def Along (R : Reading V C) (M : Meaning C) (n : Notes V) (End : State V → Prop) : List Operation → State V → Prop
  | [], s => End s
  | op :: ops, s =>
    n.before.find? op.id = some s ∧ ∃ s', Along R M n End ops s' ∧
      ∀ σ, R.fits s σ → (∀ ev, Emits M [op] σ ev → R.allowed ev) →
        (∀ r σ', Eval M op σ r σ' → R.fits s' σ') ∧ ∀ ev, Emits M [op] σ ev → R.Explains n.values ev

/-- Two notes agree on the states before and on the values of some operations. -/
structure Notes.Agree (ids : List OperationId) (n n' : Notes V) : Prop where
  /-- On the states. -/
  before : ∀ id ∈ ids, n'.before.find? id = n.before.find? id
  /-- On the values. -/
  values : ∀ id ∈ ids, n'.values.find? id = n.values.find? id

theorem Notes.Agree.mono {ids ids' : List OperationId} {n n' : Notes V} (h : n.Agree ids n')
    (hsub : ∀ id ∈ ids', id ∈ ids) : n.Agree ids' n' :=
  ⟨fun id hid => h.before id (hsub id hid), fun id hid => h.values id (hsub id hid)⟩

variable {R : Reading V C} {F : Fragment} {M : Meaning C} {A : Analysis V} {ctx : Context V}
variable {usual : Call V → Visit V V}

/-- Only what is noted for these operations matters. -/
theorem Along.congr {n n' : Notes V} {End : State V → Prop} {ops : List Operation} {s : State V}
    (h : Along R M n End ops s) (agree : n.Agree (Operation.idsIn ops) n') : Along R M n' End ops s := by
  induction ops generalizing s with
  | nil => exact h
  | cons op ops ih =>
    obtain ⟨hbefore, s', hrest, hstep⟩ := h
    rw [Operation.idsIn_cons] at agree
    refine ⟨(agree.before _ (List.mem_append_left _ op.id_mem_subtree)).trans hbefore, s',
      ih hrest (agree.mono fun id hid => List.mem_append_right _ hid), fun σ hσ ha => ?_⟩
    obtain ⟨heval, hevents⟩ := hstep σ hσ ha
    refine ⟨heval, fun ev hev v hv => ?_⟩
    obtain ⟨a, t, hfind, hdesc⟩ := hevents ev hev v hv
    have hmem : ev.operation.id ∈ op.subtree.map (·.id) := by
      have := Operation.id_mem_idsIn (mem_subtrees_of_emits hev)
      rwa [Operation.idsIn_singleton] at this
    exact ⟨a, t, (agree.values _ (List.mem_append_left _ hmem)).trans hfind, hdesc⟩

theorem Along.mono {n : Notes V} {End End' : State V → Prop} {ops : List Operation} {s : State V}
    (h : Along R M n End ops s) (hE : ∀ t, End t → End' t) : Along R M n End' ops s := by
  induction ops generalizing s with
  | nil => exact hE s h
  | cons op ops ih =>
    obtain ⟨hbefore, s', hrest, hstep⟩ := h
    exact ⟨hbefore, s', ih hrest, hstep⟩

/-! ### Visits of blocks -/

/-- What is known once some operations of a block were visited one after the other. -/
structure Passed (R : Reading V C) (M : Meaning C) (ctx : Context V) (ops : List Operation) (m m' : Machine V) :
    Prop where
  /-- Variables have their names. -/
  coherent : Coherent ctx m'
  /-- The state is good. -/
  good : R.good m'.state
  /-- Nothing was noted for other operations. -/
  agree : ∀ ids, (∀ id ∈ ids, id ∉ Operation.idsIn ops) → m.notes.Agree ids m'.notes
  /-- The notes lead along the operations to the state at hand. -/
  along : Along R M m'.notes (· = m'.state) ops m.state

/-- The operations of a block are visited one after the other. -/
theorem visitOperations_passed {ops : List Operation} (spec : ∀ op ∈ ops, VisitSpec R M A ctx usual op)
    (nodup : (Operation.idsIn ops).Nodup) {m : Machine V} (coherent : Coherent ctx m) (good : R.good m.state) :
    Visit.Ensures (ops.forM fun op => do
      Visit.recordBefore op.id
      let _ ← A.visit ctx usual op) m fun _ m' => Passed R M ctx ops m m' := by
  induction ops generalizing m with
  | nil =>
    rw [Visit.ensures_forM_nil]
    exact ⟨coherent, good, fun _ _ => ⟨fun _ _ => rfl, fun _ _ => rfl⟩, rfl⟩
  | cons op ops ih =>
    obtain ⟨-, nodupRest, disjoint⟩ := Operation.nodup_idsIn_cons.1 nodup
    simp only [Visit.ensures_forM_cons, Visit.ensures_bind, Visit.ensures_recordBefore, Visit.ensures_pure]
    have visit := spec op List.mem_cons_self
      { m with notes := { m.notes with before := m.notes.before.insert op.id m.state } } (coherent.congr rfl) good
    refine visit.mono fun a m₁ hop => ?_
    obtain ⟨visited, -⟩ := hop
    refine (ih (fun o ho => spec o (List.mem_cons_of_mem _ ho)) nodupRest visited.coherent visited.good).mono
      fun _ m₂ rest => ?_
    refine ⟨rest.coherent, rest.good, fun ids hids => ⟨fun id hid => ?_, fun id hid => ?_⟩, ?_⟩
    · have hout := hids id hid
      rw [Operation.not_mem_idsIn_cons] at hout
      have hne : id ≠ op.id := fun he => hout.1 (he ▸ op.id_mem_subtree)
      rw [(rest.agree [id] (by simpa using hout.2)).before id (List.mem_singleton.2 rfl), visited.before]
      exact FinMap.find?_insert_ne _ _ hne
    · have hout := hids id hid
      rw [Operation.not_mem_idsIn_cons] at hout
      rw [(rest.agree [id] (by simpa using hout.2)).values id (List.mem_singleton.2 rfl)]
      exact visited.values id (by rw [Operation.idsIn_singleton]; exact hout.1)
    · have kept := rest.agree (op.subtree.map (·.id)) disjoint
      refine ⟨?_, m₁.state, rest.along, fun σ hσ ha => ⟨fun r σ' he => ?_, fun ev hev v hv => ?_⟩⟩
      · rw [kept.before _ op.id_mem_subtree, visited.before]
        exact FinMap.find?_insert_self _ _ _
      · exact (visited.sound σ hσ ha [r] σ' (evalAll_singleton.2 ⟨r, rfl, he⟩)).1
      · obtain ⟨b, s, hb, hd⟩ := visited.events σ hσ ha ev hev v hv
        have hmem := Operation.id_mem_idsIn (visited.mem_of_emits hev)
        rw [Operation.idsIn_singleton] at hmem
        exact ⟨b, s, (kept.values _ hmem).trans hb, hd⟩

section Blocks

variable [DecidableEq V]

/-- The scopes of some locals end. -/
theorem leaveScope_fits (S : R.Sound F M A ctx usual) (locals : List Symbol) {m : Machine V}
    (coherent : Coherent ctx m) (good : R.good m.state) :
    Visit.Ensures (A.leaveScope locals) m fun _ m' =>
      m'.notes = m.notes ∧ R.good m'.state ∧ ∀ σ, R.fits m.state σ → R.fits m'.state (σ.forgetAll locals) := by
  unfold Analysis.leaveScope
  induction locals generalizing m with
  | nil =>
    rw [Visit.ensures_forM_nil]
    exact ⟨rfl, good, fun σ hσ => by rwa [Store.forgetAll_nil]⟩
  | cons x locals ih =>
    simp only [Visit.ensures_forM_cons, Visit.ensures_bind, Visit.ensures_notes, Visit.ensures_update]
    intro s hs
    rw [Resolver.localVar, coherent.method] at hs
    obtain ⟨hgood, hfits⟩ := S.forget x m.state s good hs
    refine (ih (m := { m with state := s }) (coherent.congr rfl) hgood).mono fun _ m' h => ?_
    obtain ⟨hnotes, hgood', hrest⟩ := h
    refine ⟨hnotes, hgood', fun σ hσ => ?_⟩
    rw [Store.forgetAll_cons]
    exact hrest _ (hfits σ hσ)

/-- Control may leave a block in the state `out`. -/
def Leaves (R : Reading V C) (b : Block) (out s : State V) : Prop :=
  ∀ σ, R.fits s σ → R.fits out (σ.forgetAll b.leavingScope)

/-- What is to hold of a body while it is swept. -/
def soundness (R : Reading V C) (M : Meaning C) (ctx : Context V) : Analysis.Invariant V where
  state := R.good
  machine := Coherent ctx
  block := fun b s out n => Along R M n (Leaves R b out) b.allOperations s

/-- A visit of a block. -/
theorem runBlock_along (S : R.Sound F M A ctx usual) (within : ctx.graph.Within F)
    (distinct : ctx.graph.DistinctIds) {b : Block} (hb : b ∈ ctx.graph.blocks) {m : Machine V} {s : State V}
    (coherent : Coherent ctx m) (good : R.good s) :
    Visit.Ensures (A.runBlock ctx usual b s) m fun out m' =>
      Coherent ctx m' ∧ R.good out ∧ Along R M m'.notes (Leaves R b out) b.allOperations s ∧
        ∀ ids, (∀ id ∈ ids, id ∉ Operation.idsIn b.allOperations) → m.notes.Agree ids m'.notes := by
  unfold Analysis.runBlock
  simp only [Visit.ensures_bind, Visit.ensures_setState]
  have mem := Graph.subtrees_allOperations_subset hb
  have nodup := distinct.block hb
  have spec : ∀ op ∈ b.allOperations, VisitSpec R M A ctx usual op := fun op hop =>
    visit_visited S within distinct op (Operation.nodup_of_mem hop nodup) fun o ho =>
      mem o (Operation.subtree_subset_of_mem hop o ho)
  refine (visitOperations_passed spec nodup (m := { m with state := s }) (coherent.congr rfl) good).mono
    fun _ m₁ passed => ?_
  refine (leaveScope_fits S b.leavingScope passed.coherent passed.good).mono fun _ m₂ left => ?_
  obtain ⟨hnotes, hgood, hfits⟩ := left
  rw [Visit.ensures_state]
  refine ⟨passed.coherent.congr (by rw [hnotes]), hgood, ?_, fun ids hids => ?_⟩
  · rw [hnotes]
    refine passed.along.mono ?_
    rintro t rfl σ hσ
    exact hfits σ hσ
  · rw [hnotes]
    exact passed.agree ids hids

/-- Sweeps keep what is to hold. -/
theorem soundness_kept (S : R.Sound F M A ctx usual) (within : ctx.graph.Within F)
    (distinct : ctx.graph.DistinctIds) {initial : State V} (hinitial : A.initialState ctx = .ok initial) :
    (soundness R M ctx).Kept A ctx usual initial := by
  refine ⟨(S.initial initial hinitial).1, S.good_merge, S.good_widen, fun b hb m s coherent good => ?_⟩
  have hmem := Analysis.mem_blocks_of_mem_sweepOrder hb
  refine (runBlock_along S within distinct hmem coherent good).mono fun out m' h => ?_
  obtain ⟨hcoherent, hgood, halong, hagree⟩ := h
  refine ⟨hcoherent, hgood, halong, fun c hc hne t u hblock => ?_⟩
  refine hblock.congr (hagree _ fun id hid => ?_)
  have hne' : c ≠ b := fun h => hne (h ▸ rfl)
  exact distinct.not_mem_of_ne (Analysis.mem_blocks_of_mem_sweepOrder hc) hmem hne' hid

/-! ### Runs -/

/-- What is evaluated from the points on that control reaches is known from elsewhere. -/
def Reading.AllowsRuns (R : Reading V C) (M : Meaning C) (g : Graph) : Prop :=
  ∀ b ops σ, Reached M g b ops σ → ∀ ev, Emits M ops σ ev → R.allowed ev

/-- Wherever control is in a block, the solution leads along the rest of the block, and the
store fits. -/
theorem exists_along_of_reached {initial : State V} {p : Progress V} {m : Machine V}
    (S : R.Sound F M A ctx usual) (valid : ctx.graph.Valid) (hinitial : A.initialState ctx = .ok initial)
    (holds : (soundness R M ctx).Holds ctx initial p m)
    (settled : ∀ b ∈ Analysis.sweepOrder ctx.graph, Analysis.SettledIn (soundness R M ctx) A ctx initial p b)
    (allowed : R.AllowsRuns M ctx.graph) {b : Block} {ops : List Operation} {σ : Store C}
    (h : Reached M ctx.graph b ops σ) :
    ctx.graph.Reachable b.id ∧ ctx.graph.block? b.id = some b ∧ ∃ s out, p.exits.find? b.id = some out ∧
      Along R M m.notes (Leaves R b out) ops s ∧ R.fits s σ := by
  -- Control comes to the start of a block with a store that fits what flows in.
  have enter : ∀ {c : Block} {i : BlockId} {σ : Store C}, ctx.graph.block? i = some c → ctx.graph.Reachable i →
      (∀ input, p.inflow A.domain ctx.graph initial c = some input → R.good input ∧ R.fits input σ) →
        ctx.graph.Reachable c.id ∧ ctx.graph.block? c.id = some c ∧ ∃ s out, p.exits.find? c.id = some out ∧
          Along R M m.notes (Leaves R c out) c.allOperations s ∧ R.fits s σ := by
    intro c i σ hc hi hfits
    have hid := valid.id_of_block? hc
    obtain ⟨s, out, hout, halong, -, hfit⟩ := Analysis.exists_visit_of_reachable valid holds settled
      (P := fun t => R.good t ∧ R.fits t σ)
      (fun s t hs ht => ⟨S.good_widen s t hs ht.1, S.fits_widen s t σ hs ht.1 ht.2⟩) hi hc hfits
    exact ⟨hid ▸ hi, hid ▸ hc, s, out, hout, halong, hfit⟩
  induction h with
  | @start b σ hb hσ =>
    refine enter hb .entry fun input hinput => ?_
    obtain ⟨c, hc, hentry⟩ := valid.block?_entry
    obtain rfl := Option.some.inj (hb.symm.trans hc)
    rw [Progress.inflow_of_isEntry hentry, Option.some.injEq] at hinput
    subst hinput
    obtain ⟨hgood, hfits⟩ := S.initial initial hinitial
    exact ⟨hgood, hfits σ hσ⟩
  | @step b op ops r σ σ' hreached heval ih =>
    obtain ⟨hr, hb, s, out, hout, ⟨-, s', hrest, hstep⟩, hfits⟩ := ih
    obtain ⟨hsound, -⟩ := hstep σ hfits fun ev hev =>
      allowed b _ σ hreached ev (emits_cons_of_singleton hev)
    exact ⟨hr, hb, s', out, hout, hrest, hsound r σ' heval⟩
  | @jump b c i σ hreached hi hc ih =>
    obtain ⟨hr, hb, s, out, hout, hleaves, hfits⟩ := ih
    have hmem := Graph.mem_of_block? hb
    refine enter hc (hr.branch ((Graph.mem_successors hb).2 hi)) fun input hinput => ?_
    have good : R.good input := Progress.inflow_induction (S.initial initial hinitial).1 S.good_merge
      holds.exits hinput
    exact ⟨good, Analysis.inflow_of_mem_successors valid holds S.good_merge
      (P := fun t => R.fits t (σ.forgetAll b.leavingScope)) (fun t u ht hu h => S.fits_merge t u _ ht hu h) hmem hi hc hout
      (hleaves σ hfits) hinput⟩

/-- Whenever control is before an operation, the state that the solution has there fits the store;
and whatever is evaluated is described by the value that the solution has for it. -/
theorem run_explained {ledger ledger' : Ledger V} {sol : Solution V}
    (S : ∀ usual, Analysis.IsUsual A ctx usual → R.Sound F M A ctx usual) (valid : ctx.graph.Valid)
    (within : ctx.graph.Within F) (distinct : ctx.graph.DistinctIds)
    (h : (A.solve ctx).run ledger = (.ok sol, ledger')) (allowed : R.AllowsRuns M ctx.graph) {b : Block}
    {op : Operation} {ops : List Operation} {σ : Store C} (hreached : Reached M ctx.graph b (op :: ops) σ) :
    (∃ s, sol.stateBefore op.id = some s ∧ R.fits s σ) ∧
      ∀ ev, Emits M [op] σ ev → R.Explains sol.values ev := by
  have kept : ∀ usual, Analysis.IsUsual A ctx usual → ∀ initial, A.initialState ctx = .ok initial →
      (soundness R M ctx).Kept A ctx usual initial :=
    fun usual husual initial hinitial => soundness_kept (S usual husual) within distinct hinitial
  have start : ∀ m : Machine V, m.notes = Notes.start (Resolver.start ctx.owner ctx.tracksUnknown) →
      Coherent ctx m := by
    intro m hm
    constructor
    · rw [hm]
      rfl
    · intro op _ x _ a ha
      rw [hm] at ha
      cases ha
  obtain ⟨initial, p, m, hinitial, rfl, holds, settled⟩ := Analysis.solve_holds h valid start kept
  obtain ⟨-, -, s, out, -, ⟨hbefore, s', -, hstep⟩, hfits⟩ :=
    exists_along_of_reached (S _ ⟨none, rfl⟩) valid hinitial holds settled allowed hreached
  refine ⟨⟨s, hbefore, hfits⟩, (hstep σ hfits fun ev hev => ?_).2⟩
  exact allowed b _ σ hreached ev (emits_cons_of_singleton hev)

/-- Whatever is evaluated from a point on that control reaches, also beyond the next operation. -/
theorem events_explained {ledger ledger' : Ledger V} {sol : Solution V}
    (S : ∀ usual, Analysis.IsUsual A ctx usual → R.Sound F M A ctx usual) (valid : ctx.graph.Valid)
    (within : ctx.graph.Within F) (distinct : ctx.graph.DistinctIds)
    (h : (A.solve ctx).run ledger = (.ok sol, ledger')) (allowed : R.AllowsRuns M ctx.graph) {b : Block}
    {ops : List Operation} {σ : Store C} (hreached : Reached M ctx.graph b ops σ) {ev : Event C}
    (hev : Emits M ops σ ev) : R.Explains sol.values ev := by
  induction ops generalizing σ with
  | nil => exact absurd hev not_emits_nil
  | cons op ops ih =>
    have first := (run_explained S valid within distinct h allowed hreached).2
    rcases emits_cons.1 hev with hself | hoperand | ⟨r, σ₁, heval, hrest⟩
    · exact first ev (emits_cons.2 (.inl hself))
    · exact first ev (emits_cons.2 (.inr (.inl hoperand)))
    · exact ih (hreached.step heval) hrest

end Blocks

end Dataflow
