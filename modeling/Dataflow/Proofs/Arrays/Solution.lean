import Dataflow.Proofs.Arrays.Walk
import Dataflow.Proofs.Solver.Sweeps

/-!
# Solutions and runs over an array

If an account is sound, the solution of a body speaks of its runs: what is evaluated is described by the value that the
solution has for it.

## What is proved

`run_explained`, by induction over runs. Its invariant is `Along`: from where control is in a block to the end of the
block, each operation leads from memories that fit a state to memories that fit the next one. Visits of blocks establish
this (`runBlock_along`), and visits of other blocks keep it because they note values of other operations. At a branch the
state at the end flows into the next block.
-/

namespace Dataflow

namespace Arrays

variable {V Ω : Type}

/-! ### Along the operations of a block -/

/-- From the state `s` on, some operations lead to a state with the property `End`, and the noted values describe what is
evaluated on the way. -/
def Along (R : Account V Ω) (may : Reads Ω) (values : FinMap OperationId V) (End : State V → Prop) :
    List Operation → State V → Prop
  | [], s => End s
  | op :: ops, s => ∃ s', Along R may values End ops s' ∧ ∀ mem, R.fits s mem → R.Permits may op mem →
    (∀ v mem', Eval may op mem v mem' → R.fits s' mem') ∧ ∀ ev, Emits may op mem ev → R.Explains values ev

variable {R : Account V Ω} {may : Reads Ω} {A : Analysis V} {ctx : Context V} {usual : Call V → Visit V V}
variable {values values' : FinMap OperationId V} {End : State V → Prop} {ops : List Operation} {s : State V}

/-- Only what is noted for these operations matters. -/
theorem Along.congr (h : Along R may values End ops s)
    (same : ∀ id ∈ Operation.idsIn ops, values'.find? id = values.find? id) : Along R may values' End ops s := by
  induction ops generalizing s with
  | nil => exact h
  | cons op ops ih =>
    obtain ⟨s', hrest, hstep⟩ := h
    rw [Operation.idsIn_cons] at same
    refine ⟨s', ih hrest fun id hid => same id (List.mem_append_right _ hid), fun mem hfits permits => ?_⟩
    obtain ⟨heval, hevents⟩ := hstep mem hfits permits
    refine ⟨heval, fun ev hev => ?_⟩
    exact (hevents ev hev).congr (same _ (List.mem_append_left _ (List.mem_map_of_mem (mem_subtree_of_emits hev))))

theorem Along.mono {End' : State V → Prop} (h : Along R may values End ops s) (hEnd : ∀ t, End t → End' t) :
    Along R may values End' ops s := by
  induction ops generalizing s with
  | nil => exact hEnd s h
  | cons op ops ih =>
    obtain ⟨s', hrest, hstep⟩ := h
    exact ⟨s', ih hrest, hstep⟩

/-! ### Visits of blocks -/

variable [DecidableEq V]

/-- What is known once some operations of a block were visited one after the other. -/
structure Passed (R : Account V Ω) (may : Reads Ω) (ctx : Context V) (ops : List Operation) (m m' : Machine V) :
    Prop where
  /-- Storage has its names. -/
  resolves : Resolves ctx m'
  /-- Values were noted for these operations and those below them only. -/
  others : ∀ id ∉ Operation.idsIn ops, m'.notes.values.find? id = m.notes.values.find? id
  /-- The operations lead to the state at hand. -/
  along : Along R may m'.notes.values (· = m'.state) ops m.state

/-- The operations of a block are visited one after the other. -/
theorem visitOperations_passed (S : R.Sound may A ctx) (shaped : ctx.graph.OverArray) (distinct : ctx.graph.DistinctIds)
    {ops : List Operation} (hops : ∀ op ∈ ops, op ∈ Operation.subtrees ctx.graph.operations)
    (nodup : (Operation.idsIn ops).Nodup) {m : Machine V} (resolves : Resolves ctx m) :
    Visit.Ensures (ops.forM fun op => do
      Visit.recordBefore op.id
      let _ ← A.visit ctx usual op) m fun _ m' => Passed R may ctx ops m m' := by
  induction ops generalizing m with
  | nil =>
    rw [Visit.ensures_forM_nil]
    exact ⟨resolves, fun _ _ => rfl, rfl⟩
  | cons op ops ih =>
    obtain ⟨nodupFirst, nodupRest, disjoint⟩ := Operation.nodup_idsIn_cons.1 nodup
    simp only [Visit.ensures_forM_cons, Visit.ensures_bind, Visit.ensures_recordBefore, Visit.ensures_pure]
    refine (visit_visited S shaped distinct op _).mono fun a m₁ spec => ?_
    have visited := spec (hops op List.mem_cons_self) nodupFirst (resolves.congr rfl)
    refine (ih (fun o ho => hops o (List.mem_cons_of_mem _ ho)) nodupRest visited.resolves).mono fun _ m₂ rest => ?_
    refine ⟨rest.resolves, fun id hid => ?_, m₁.state, rest.along, fun mem hfits permits => ⟨fun v mem' heval => ?_,
      fun ev hev => ?_⟩⟩
    · rw [Operation.not_mem_idsIn_cons] at hid
      exact (rest.others id hid.2).trans (visited.others id hid.1)
    · exact (visited.sound mem hfits permits v mem' heval).1
    · have hmem := List.mem_map_of_mem (f := (·.id)) (mem_subtree_of_emits hev)
      exact (visited.events mem hfits permits ev hev).congr (rest.others _ (disjoint _ hmem))

/-- The scopes of some locals end. -/
theorem leaveScope_fits (S : R.Sound may A ctx) (locals : List Symbol) {m : Machine V} (resolves : Resolves ctx m) :
    Visit.Ensures (A.leaveScope locals) m fun _ m' =>
      m'.notes = m.notes ∧ ∀ mem, R.fits m.state mem → R.fits m'.state (mem.leave locals) := by
  unfold Analysis.leaveScope
  induction locals generalizing m with
  | nil =>
    rw [Visit.ensures_forM_nil]
    refine ⟨rfl, fun mem hfits => ?_⟩
    rwa [Memory.leave, Store.forgetAll_nil]
  | cons x locals ih =>
    simp only [Visit.ensures_forM_cons, Visit.ensures_bind, Visit.ensures_notes, Visit.ensures_update]
    intro s hs
    rw [Resolver.localVar, resolves.method] at hs
    refine (ih (m := { m with state := s }) (resolves.congr rfl)).mono fun _ m' h => ?_
    obtain ⟨hnotes, hrest⟩ := h
    refine ⟨hnotes, fun mem hfits => ?_⟩
    rw [Memory.leave, Store.forgetAll_cons]
    exact hrest _ (S.forget x m.state s mem hfits hs)

/-- Control may leave a block in the state `out`. -/
def Leaves (R : Account V Ω) (b : Block) (out s : State V) : Prop :=
  ∀ mem, R.fits s mem → R.fits out (mem.leave b.leavingScope)

/-- What is to hold of a body while it is swept. -/
def soundness (R : Account V Ω) (may : Reads Ω) (ctx : Context V) : Analysis.Invariant V where
  state := fun _ => True
  machine := Resolves ctx
  block := fun b s out n => Along R may n.values (Leaves R b out) b.allOperations s

/-- A visit of a block. -/
theorem runBlock_along (S : R.Sound may A ctx) (shaped : ctx.graph.OverArray) (distinct : ctx.graph.DistinctIds)
    {b : Block} (hb : b ∈ ctx.graph.blocks) {m : Machine V} {s : State V} (resolves : Resolves ctx m) :
    Visit.Ensures (A.runBlock ctx usual b s) m fun out m' =>
      Resolves ctx m' ∧ Along R may m'.notes.values (Leaves R b out) b.allOperations s ∧
        ∀ id ∉ Operation.idsIn b.allOperations, m'.notes.values.find? id = m.notes.values.find? id := by
  unfold Analysis.runBlock
  simp only [Visit.ensures_bind, Visit.ensures_setState]
  refine (visitOperations_passed S shaped distinct (Graph.allOperations_subset hb) (distinct.block hb) (m := { m with state := s })
    (resolves.congr rfl)).mono fun _ m₁ passed => ?_
  refine (leaveScope_fits S b.leavingScope passed.resolves).mono fun _ m₂ left => ?_
  obtain ⟨hnotes, hfits⟩ := left
  rw [Visit.ensures_state]
  refine ⟨passed.resolves.congr (by rw [hnotes]), ?_, by rw [hnotes]; exact passed.others⟩
  rw [hnotes]
  refine passed.along.mono ?_
  rintro t rfl mem hmem
  exact hfits mem hmem

/-- Sweeps keep what is to hold. -/
theorem soundness_kept (S : R.Sound may A ctx) (shaped : ctx.graph.OverArray) (distinct : ctx.graph.DistinctIds)
    (initial : State V) : (soundness R may ctx).Kept A ctx usual initial := by
  refine ⟨trivial, fun _ _ _ _ => trivial, fun _ _ _ _ => trivial, fun b hb m s resolves _ => ?_⟩
  have hmem := Analysis.mem_blocks_of_mem_sweepOrder hb
  refine (runBlock_along S shaped distinct hmem resolves).mono fun out m' h => ?_
  obtain ⟨hresolves, halong, hothers⟩ := h
  refine ⟨hresolves, trivial, halong, fun c hc hne t u hblock => hblock.congr fun id hid => hothers id ?_⟩
  have hne' : c ≠ b := fun h => hne (h ▸ rfl)
  exact distinct.not_mem_of_ne (Analysis.mem_blocks_of_mem_sweepOrder hc) hmem hne' hid

/-! ### Runs -/

/-- What is known from elsewhere is known wherever control is. -/
def Account.PermitsRuns (R : Account V Ω) (may : Reads Ω) (g : Graph) : Prop :=
  ∀ b op ops mem, Reached may g b (op :: ops) mem → R.Permits may op mem

/-- Wherever control is in a block, the solution leads along the rest of the block, and the memory fits. -/
theorem exists_along_of_reached {initial : State V} {p : Progress V} {m : Machine V} (S : R.Sound may A ctx)
    (valid : ctx.graph.Valid) (hinitial : A.initialState ctx = .ok initial)
    (holds : (soundness R may ctx).Holds ctx initial p m)
    (settled : ∀ b ∈ Analysis.sweepOrder ctx.graph, Analysis.SettledIn (soundness R may ctx) A ctx initial p b)
    (permits : R.PermitsRuns may ctx.graph) {b : Block} {ops : List Operation} {mem : Memory Ω}
    (h : Reached may ctx.graph b ops mem) :
    ctx.graph.Reachable b.id ∧ ctx.graph.block? b.id = some b ∧ ∃ s out, p.exits.find? b.id = some out ∧
      Along R may m.notes.values (Leaves R b out) ops s ∧ R.fits s mem := by
  -- Control comes to the start of a block with a memory that fits what flows in.
  have enter : ∀ {c : Block} {i : BlockId} {mem : Memory Ω}, ctx.graph.block? i = some c → ctx.graph.Reachable i →
      (∀ input, p.inflow A.domain ctx.graph initial c = some input → R.fits input mem) →
        ctx.graph.Reachable c.id ∧ ctx.graph.block? c.id = some c ∧ ∃ s out, p.exits.find? c.id = some out ∧
          Along R may m.notes.values (Leaves R c out) c.allOperations s ∧ R.fits s mem := by
    intro c i mem hc hi hfits
    have hid := valid.id_of_block? hc
    obtain ⟨s, out, hout, halong, hfit⟩ := Analysis.exists_visit_of_reachable valid holds settled
      (P := fun t => R.fits t mem) (fun s t _ ht => S.widen s t mem ht) hi hc hfits
    exact ⟨hid ▸ hi, hid ▸ hc, s, out, hout, halong, hfit⟩
  induction h with
  | @start b hb =>
    refine enter hb .entry fun input hinput => ?_
    obtain ⟨c, hc, hentry⟩ := valid.block?_entry
    obtain rfl := Option.some.inj (hb.symm.trans hc)
    rw [Progress.inflow_of_isEntry hentry, Option.some.injEq] at hinput
    exact hinput ▸ S.initial initial hinitial
  | step hreached heval ih =>
    obtain ⟨hr, hb, s, out, hout, ⟨s', hrest, hstep⟩, hfits⟩ := ih
    exact ⟨hr, hb, s', out, hout, hrest, (hstep _ hfits (permits _ _ _ _ hreached)).1 _ _ heval⟩
  | @jump b c i mem hreached hi hc ih =>
    obtain ⟨hr, hb, s, out, hout, hleaves, hfits⟩ := ih
    have hmem := Graph.mem_of_block? hb
    refine enter hc (hr.branch ((Graph.mem_successors hb).2 hi)) fun input hinput => ?_
    exact Analysis.inflow_of_mem_successors valid holds (fun _ _ _ _ => trivial)
      (P := fun t => R.fits t (mem.leave b.leavingScope)) (fun t u _ _ h => S.merge t u _ h) hmem hi hc hout
      (hleaves mem hfits) hinput

/-- Whatever is evaluated from a point on that control reaches is described by the value that the solution has for it. -/
theorem run_explained {ledger ledger' : Ledger V} {sol : Solution V} (S : R.Sound may A ctx) (valid : ctx.graph.Valid)
    (shaped : ctx.graph.OverArray) (distinct : ctx.graph.DistinctIds)
    (h : (A.solve ctx).run ledger = (.ok sol, ledger')) (permits : R.PermitsRuns may ctx.graph) {b : Block}
    {op : Operation} {ops : List Operation} {mem : Memory Ω} (hreached : Reached may ctx.graph b (op :: ops) mem)
    {ev : Event Ω} (hev : Emits may op mem ev) : R.Explains sol.values ev := by
  have start : ∀ m : Machine V, m.notes = Notes.start (Resolver.start ctx.owner ctx.tracksUnknown) →
      Resolves ctx m := by
    intro m hm
    exact ⟨by rw [hm]; rfl, by rw [hm]; exact Resolver.faithful_start ctx⟩
  obtain ⟨initial, p, m, hinitial, rfl, holds, settled⟩ :=
    Analysis.solve_holds h valid start fun _ _ initial _ => soundness_kept S shaped distinct initial
  obtain ⟨-, -, s, out, -, ⟨s', -, hstep⟩, hfits⟩ :=
    exists_along_of_reached S valid hinitial holds settled permits hreached
  exact (hstep mem hfits (permits _ _ _ _ hreached)).2 ev hev

end Arrays

end Dataflow
