import Dataflow.Proofs.Graph.Reachability
import Dataflow.Proofs.State.Pointwise
import Dataflow.Proofs.Visit.Ensures

/-!
# What a solved body keeps

The solver sweeps over the blocks until a sweep changes no state at the end of a block. Here
its loops are taken apart once for all analyses and for everything that one may want to
know about a solution.

## What is proved

An `Invariant` says what holds of the states at the ends of blocks, of the machine between
visits, and of a block that was visited. If every visit of a block keeps it (`Kept`), it holds
of the solution (`solve_holds`). And in the solution every swept block is settled: the state at
its start is what flows in, or was widened by it (`Settled`). A block that is not visited in
the last sweep was settled before, and one that is visited is settled by that; either way the
states at the ends of blocks are those of the solution, because the last sweep changes none.

So what holds at the end of a block goes on to the blocks after it (`inflow_of_mem_successors`,
`exists_visit_of_reachable`); inductions over runs use these two.
-/

namespace Dataflow

namespace Progress

variable {V : Type}

/-! ### What a block is visited in -/

/-- Only the states at the ends of other blocks flow into a block. -/
theorem inflow_congr {D : Domain V} {g : Graph} {initial : State V} {p p' : Progress V} {b : Block}
    (h : p'.exits = p.exits) : p'.inflow D g initial b = p.inflow D g initial b := by
  unfold inflow
  rw [h]

/-- The initial state flows into the entry. -/
theorem inflow_of_isEntry {D : Domain V} {g : Graph} {initial : State V} {p : Progress V} {b : Block}
    (h : b.isEntry = true) : p.inflow D g initial b = some initial := by
  unfold inflow
  rw [if_pos h]

/-- What flows into a block that is not the entry. -/
theorem inflow_of_not_isEntry {D : Domain V} {g : Graph} {initial : State V} {p : Progress V} {b : Block}
    (h : b.isEntry = false) :
    p.inflow D g initial b = State.mergeAll D ((g.predecessors b.id).filterMap p.exits.find?) := by
  unfold inflow
  rw [if_neg (by simp [h])]

/-- A property that merging keeps holds of what flows into a block if it holds of the initial
state and at the ends of all blocks. -/
theorem inflow_induction {D : Domain V} {g : Graph} {initial : State V} {p : Progress V} {b : Block}
    {P : State V → Prop} (hinitial : P initial) (hmerge : ∀ s t, P s → P t → P (State.merge D s t))
    (hexits : ∀ i s, p.exits.find? i = some s → P s) {input : State V}
    (h : p.inflow D g initial b = some input) : P input := by
  cases hb : b.isEntry with
  | true =>
    rw [inflow_of_isEntry hb, Option.some.injEq] at h
    exact h ▸ hinitial
  | false =>
    rw [inflow_of_not_isEntry hb] at h
    refine State.mergeAll_induction hmerge (fun s hs => ?_) h
    obtain ⟨i, -, hi⟩ := List.mem_filterMap.1 hs
    exact hexits i s hi

@[simp]
theorem visitsOf_enter_self (p : Progress V) (b : BlockId) (s : State V) :
    (p.enter b s).visitsOf b = p.visitsOf b + 1 := by
  simp [visitsOf, enter]

theorem visitsOf_enter_ne (p : Progress V) {b c : BlockId} (s : State V) (h : c ≠ b) :
    (p.enter b s).visitsOf c = p.visitsOf c := by
  simp [visitsOf, enter, FinMap.find?_insert_ne _ _ h]

variable [DecidableEq V]

/-- The state at the start of a block is what flows in, or was widened by it after the block had
been visited often. `Good` is what is known of the state that was widened. -/
def Settled (D : Domain V) (g : Graph) (threshold : Nat) (initial : State V) (Good : State V → Prop)
    (p : Progress V) (b : Block) : Prop :=
  ∀ input, p.inflow D g initial b = some input → ∃ s, p.entries.find? b.id = some s ∧
    (s = input ∨ threshold ≤ p.visitsOf b.id ∧ ∃ previous, Good previous ∧ s = State.widen D previous input)

/-- Only the block's own state and what flows in matter for whether it is settled. -/
theorem Settled.congr {D : Domain V} {g : Graph} {threshold : Nat} {initial : State V} {Good : State V → Prop}
    {p p' : Progress V} {b : Block} (h : p.Settled D g threshold initial Good b) (hexits : p'.exits = p.exits)
    (hentries : p'.entries.find? b.id = p.entries.find? b.id)
    (hvisits : p'.visitsOf b.id = p.visitsOf b.id) : p'.Settled D g threshold initial Good b := by
  unfold Settled
  rw [inflow_congr hexits, hentries, hvisits]
  exact h

/-- A block that needs no visit is settled. -/
theorem settled_of_nextEntry_eq_none {D : Domain V} {g : Graph} {threshold : Nat} {initial : State V}
    {Good : State V → Prop} {p : Progress V} {b : Block} (h : p.nextEntry D g threshold initial b = none)
    (good : ∀ s, p.entries.find? b.id = some s → Good s) : p.Settled D g threshold initial Good b := by
  intro input hinput
  unfold nextEntry at h
  rw [hinput] at h
  cases hs : p.entries.find? b.id with
  | none =>
    rw [hs] at h
    cases h
  | some s =>
    refine ⟨s, rfl, ?_⟩
    rw [hs] at h
    dsimp only at h
    split at h
    · exact .inl ‹s = input›
    · split at h
      · split at h
        · exact .inr ⟨‹threshold ≤ _›, s, good s hs, ‹s = State.widen D s input›⟩
        · cases h
      · cases h

/-- The state that a block is visited in: what flows in, or a widening by it of another state. -/
theorem eq_of_nextEntry_eq_some {D : Domain V} {g : Graph} {threshold : Nat} {initial s : State V}
    {p : Progress V} {b : Block} (h : p.nextEntry D g threshold initial b = some s) :
    ∃ input, p.inflow D g initial b = some input ∧
      (s = input ∨ threshold ≤ p.visitsOf b.id ∧
        ∃ previous, p.entries.find? b.id = some previous ∧ previous ≠ input ∧
          s = State.widen D previous input) := by
  unfold nextEntry at h
  cases hinput : p.inflow D g initial b with
  | none =>
    rw [hinput] at h
    cases h
  | some input =>
    refine ⟨input, rfl, ?_⟩
    rw [hinput] at h
    cases hp : p.entries.find? b.id with
    | none =>
      rw [hp] at h
      exact .inl (Option.some.inj h).symm
    | some previous =>
      rw [hp] at h
      dsimp only at h
      split at h
      · cases h
      · rename_i hne
        split at h
        · rename_i ht
          split at h
          · cases h
          · exact .inr ⟨ht, previous, rfl, hne, (Option.some.inj h).symm⟩
        · exact .inl (Option.some.inj h).symm

/-- A block that is visited in a new state is settled, as long as the ends of blocks stay as they are. -/
theorem settled_enter {D : Domain V} {g : Graph} {threshold : Nat} {initial s : State V} {Good : State V → Prop}
    {p : Progress V} {b : Block} (h : p.nextEntry D g threshold initial b = some s)
    (good : ∀ s, p.entries.find? b.id = some s → Good s) :
    (p.enter b.id s).Settled D g threshold initial Good b := by
  obtain ⟨input, hinput, hs⟩ := eq_of_nextEntry_eq_some h
  intro input' hinput'
  have same : (p.enter b.id s).inflow D g initial b = p.inflow D g initial b := inflow_congr rfl
  rw [same, hinput, Option.some.injEq] at hinput'
  subst hinput'
  refine ⟨s, by simp [enter], ?_⟩
  rcases hs with hs | ⟨often, previous, hprev, -, hs⟩
  · exact .inl hs
  · exact .inr ⟨by rw [visitsOf_enter_self]; omega, previous, good previous hprev, hs⟩

end Progress

namespace Analysis

variable {V : Type} [DecidableEq V]

/-- What is to hold of a body while it is swept. -/
structure Invariant (V : Type) where
  /-- Of the states at the ends of blocks. -/
  state : State V → Prop
  /-- Of the machine between visits of blocks. -/
  machine : Machine V → Prop
  /-- Of a block, the states at its start and at its end, and what is noted. -/
  block : Block → State V → State V → Notes V → Prop

namespace Invariant

variable (K : Invariant V) (A : Analysis V) (ctx : Context V) (usual : Call V → Visit V V) (initial : State V)

/-- Merging, widening and visits of blocks keep the invariant. -/
structure Kept : Prop where
  /-- The initial state is fine. -/
  initial : K.state initial
  /-- A merge is fine. -/
  merge : ∀ s t, K.state s → K.state t → K.state (State.merge A.domain s t)
  /-- A widened state is fine. -/
  widen : ∀ s t, K.state s → K.state t → K.state (State.widen A.domain s t)
  /-- A visit establishes what is to hold of its block and keeps what holds of the others. -/
  run : ∀ b ∈ sweepOrder ctx.graph, ∀ m s, K.machine m → K.state s →
    Visit.Ensures (A.runBlock ctx usual b s) m fun out m' =>
      K.machine m' ∧ K.state out ∧ K.block b s out m'.notes ∧
        ∀ c ∈ sweepOrder ctx.graph, c.id ≠ b.id → ∀ t u, K.block c t u m.notes → K.block c t u m'.notes

/-- The invariant between visits of blocks. -/
structure Holds (p : Progress V) (m : Machine V) : Prop where
  /-- Of the machine. -/
  machine : K.machine m
  /-- Of the states at the ends of blocks. -/
  exits : ∀ i s, p.exits.find? i = some s → K.state s
  /-- Of the blocks that were visited. -/
  blocks : ∀ b ∈ sweepOrder ctx.graph, ∀ s, p.entries.find? b.id = some s →
    K.state s ∧ (b.isEntry = true → s = initial) ∧
      ∃ out, p.exits.find? b.id = some out ∧ K.block b s out m.notes
  /-- Blocks that are not swept have no states. -/
  others : ∀ i, (∀ b ∈ sweepOrder ctx.graph, b.id ≠ i) → p.entries.find? i = none ∧ p.exits.find? i = none

end Invariant

variable {K : Invariant V} {A : Analysis V} {ctx : Context V} {usual : Call V → Visit V V} {initial : State V}

/-- A block is settled in a body that is swept. -/
abbrev SettledIn (K : Invariant V) (A : Analysis V) (ctx : Context V) (initial : State V) (p : Progress V)
    (b : Block) : Prop :=
  p.Settled A.domain ctx.graph ctx.config.visitsBeforeWidening.toNat initial K.state b

/-- What a visit of a block or of several blocks does to the progress: it keeps the invariant,
does not touch the blocks outside of the list, and settles those of the list if it changes no
state at an end. -/
structure Invariant.Advances (K : Invariant V) (A : Analysis V) (ctx : Context V) (initial : State V)
    (l : List Block) (p p' : Progress V) (changed : Bool) (m' : Machine V) : Prop where
  /-- The invariant holds again. -/
  holds : K.Holds ctx initial p' m'
  /-- Other blocks keep their states. -/
  entries : ∀ c : BlockId, (∀ b ∈ l, b.id ≠ c) → p'.entries.find? c = p.entries.find? c
  /-- Other blocks are not counted. -/
  visits : ∀ c : BlockId, (∀ b ∈ l, b.id ≠ c) → p'.visitsOf c = p.visitsOf c
  /-- Nothing is reported to have changed only if nothing has. -/
  exits : changed = false → p'.exits = p.exits
  /-- The blocks are settled unless something has changed. -/
  settled : changed = false → ∀ b ∈ l, SettledIn K A ctx initial p' b

/-! ### The loops -/

/-- What a block is visited in is fine, and it is the initial state if the block is the entry. -/
theorem Invariant.Holds.entered (hK : K.Kept A ctx usual initial) {b : Block} (hb : b ∈ sweepOrder ctx.graph)
    {p : Progress V} {m : Machine V} (h : K.Holds ctx initial p m) {s : State V}
    (hnext : p.nextEntry A.domain ctx.graph ctx.config.visitsBeforeWidening.toNat initial b = some s) :
    K.state s ∧ (b.isEntry = true → s = initial) := by
  obtain ⟨input, hinput, hs⟩ := Progress.eq_of_nextEntry_eq_some hnext
  have good : K.state input := Progress.inflow_induction hK.initial hK.merge h.exits hinput
  refine ⟨?_, fun he => ?_⟩
  · rcases hs with rfl | ⟨-, previous, hprev, -, rfl⟩
    · exact good
    · exact hK.widen _ _ (h.blocks b hb previous hprev).1 good
  · rw [Progress.inflow_of_isEntry he, Option.some.injEq] at hinput
    rcases hs with rfl | ⟨-, previous, hprev, hne, -⟩
    · exact hinput.symm
    -- The entry is not widened, since its state is the initial one already.
    · exact absurd (((h.blocks b hb previous hprev).2.1 he).trans hinput) hne

omit [DecidableEq V] in
/-- After a visit the invariant holds again, with the new end of the block put among the others. -/
theorem Invariant.Holds.visited (valid : ctx.graph.Valid) {b : Block} (hb : b ∈ sweepOrder ctx.graph)
    {p : Progress V} {m m' : Machine V} (h : K.Holds ctx initial p m) {s out : State V} (good : K.state s)
    (entry : b.isEntry = true → s = initial) (machine : K.machine m') (goodOut : K.state out)
    (block : K.block b s out m'.notes)
    (others : ∀ c ∈ sweepOrder ctx.graph, c.id ≠ b.id → ∀ t u, K.block c t u m.notes → K.block c t u m'.notes)
    {exits : FinMap BlockId (State V)} (hself : exits.find? b.id = some out)
    (hne : ∀ i, i ≠ b.id → exits.find? i = p.exits.find? i) :
    K.Holds ctx initial { p.enter b.id s with exits } m' where
  machine := machine
  exits := by
    intro i t hi
    by_cases he : i = b.id
    · rw [he, hself, Option.some.injEq] at hi
      exact hi ▸ goodOut
    · rw [hne i he] at hi
      exact h.exits i t hi
  blocks := by
    intro c hc t ht
    by_cases he : c.id = b.id
    · obtain rfl : c = b :=
        valid.id_inj (mem_blocks_of_mem_sweepOrder hc) (mem_blocks_of_mem_sweepOrder hb) he
      simp only [Progress.enter, FinMap.find?_insert_self, Option.some.injEq] at ht
      subst ht
      exact ⟨good, entry, out, hself, block⟩
    · simp only [Progress.enter, FinMap.find?_insert_ne _ _ he] at ht
      obtain ⟨ht', hentry, u, hu, hblock⟩ := h.blocks c hc t ht
      exact ⟨ht', hentry, u, (hne _ he).trans hu, others c hc he t u hblock⟩
  others := by
    intro i hi
    have he := (hi b hb).symm
    obtain ⟨hentry, hexit⟩ := h.others i hi
    exact ⟨(FinMap.find?_insert_ne _ _ he).trans hentry, (hne i he).trans hexit⟩

/-- A visit of a block. -/
theorem visitBlock_advances (hK : K.Kept A ctx usual initial) (valid : ctx.graph.Valid) {b : Block}
    (hb : b ∈ sweepOrder ctx.graph) {p : Progress V} {m : Machine V} (h : K.Holds ctx initial p m) :
    Visit.Ensures (A.visitBlock ctx usual initial b p) m fun r m' =>
      K.Advances A ctx initial [b] p r.1 r.2 m' := by
  have before : ∀ s, p.entries.find? b.id = some s → K.state s := fun s hs => (h.blocks b hb s hs).1
  unfold visitBlock
  rw [Visit.ensures_bind, Visit.ensures_checkCancelled]
  intro _
  split
  · rename_i hnext
    rw [Visit.ensures_pure]
    refine ⟨h, fun _ _ => rfl, fun _ _ => rfl, fun _ => rfl, fun _ c hc => ?_⟩
    obtain rfl := List.mem_singleton.1 hc
    exact Progress.settled_of_nextEntry_eq_none hnext before
  · rename_i s hnext
    obtain ⟨good, entry⟩ := h.entered hK hb hnext
    rw [Visit.ensures_bind]
    refine (hK.run b hb m s h.machine good).mono fun out m' hrun => ?_
    obtain ⟨machine, goodOut, block, others⟩ := hrun
    have holds {exits : FinMap BlockId (State V)} (hself : exits.find? b.id = some out)
        (hne : ∀ i, i ≠ b.id → exits.find? i = p.exits.find? i) :
        K.Holds ctx initial { p.enter b.id s with exits } m' :=
      h.visited valid hb good entry machine goodOut block others hself hne
    split
    · rename_i hsame
      rw [Visit.ensures_pure]
      refine ⟨holds hsame fun _ _ => rfl, fun c hc => ?_, fun c hc => ?_, fun _ => rfl, fun _ c hc => ?_⟩
      · exact FinMap.find?_insert_ne _ _ (hc b List.mem_cons_self).symm
      · exact Progress.visitsOf_enter_ne p s (hc b List.mem_cons_self).symm
      · obtain rfl := List.mem_singleton.1 hc
        exact Progress.settled_enter hnext before
    · rw [Visit.ensures_pure]
      refine ⟨holds (FinMap.find?_insert_self _ _ _) (fun i hi => FinMap.find?_insert_ne _ _ hi),
        fun c hc => ?_, fun c hc => ?_, fun h => ?_, fun h => ?_⟩
      · exact FinMap.find?_insert_ne _ _ (hc b List.mem_cons_self).symm
      · exact Progress.visitsOf_enter_ne p s (hc b List.mem_cons_self).symm
      · cases h
      · cases h

/-- A sweep over some blocks. A block that a later one of the same identifier unsettles is that
later one, and so settled again. -/
theorem sweep_advances (hK : K.Kept A ctx usual initial) (valid : ctx.graph.Valid) {l : List Block}
    (hl : ∀ b ∈ l, b ∈ sweepOrder ctx.graph) {p : Progress V} {m : Machine V} (h : K.Holds ctx initial p m) :
    Visit.Ensures (A.sweep ctx usual initial l p) m fun r m' => K.Advances A ctx initial l p r.1 r.2 m' := by
  induction l generalizing p m with
  | nil =>
    rw [sweep, Visit.ensures_pure]
    exact ⟨h, fun _ _ => rfl, fun _ _ => rfl, fun _ => rfl, fun _ b hb => by cases hb⟩
  | cons b l ih =>
    rw [sweep, Visit.ensures_bind]
    have hb := hl b List.mem_cons_self
    refine (visitBlock_advances hK valid hb h).mono fun r m₁ first => ?_
    obtain ⟨p₁, changed⟩ := r
    dsimp only
    rw [Visit.ensures_bind]
    refine (ih (fun c hc => hl c (List.mem_cons_of_mem _ hc)) first.holds).mono fun r m₂ later => ?_
    obtain ⟨p₂, changedLater⟩ := r
    rw [Visit.ensures_pure]
    refine ⟨later.holds, fun c hc => ?_, fun c hc => ?_, fun hch => ?_, fun hch c hc => ?_⟩
    · rw [later.entries c fun d hd => hc d (List.mem_cons_of_mem _ hd),
        first.entries c fun d hd => hc d (by rw [List.mem_singleton.1 hd]; exact List.mem_cons_self)]
    · rw [later.visits c fun d hd => hc d (List.mem_cons_of_mem _ hd),
        first.visits c fun d hd => hc d (by rw [List.mem_singleton.1 hd]; exact List.mem_cons_self)]
    · rw [Bool.or_eq_false_iff] at hch
      rw [later.exits hch.2, first.exits hch.1]
    · rw [Bool.or_eq_false_iff] at hch
      rcases List.mem_cons.1 hc with rfl | hc
      · by_cases again : ∃ d ∈ l, d.id = c.id
        · obtain ⟨d, hd, hid⟩ := again
          obtain rfl : d = c := valid.id_inj
            (mem_blocks_of_mem_sweepOrder (hl d (List.mem_cons_of_mem _ hd)))
            (mem_blocks_of_mem_sweepOrder hb) hid
          exact later.settled hch.2 d hd
        · have hne : ∀ d ∈ l, d.id ≠ c.id := fun d hd hid => again ⟨d, hd, hid⟩
          exact (first.settled hch.1 c (List.mem_singleton.2 rfl)).congr (later.exits hch.2)
            (later.entries _ hne) (later.visits _ hne)
      · exact later.settled hch.2 c hc

/-- Sweeping until nothing changes settles every block. -/
theorem settle_settles (hK : K.Kept A ctx usual initial) (valid : ctx.graph.Valid) {limit : Nat}
    {p : Progress V} {m : Machine V} (h : K.Holds ctx initial p m) :
    Visit.Ensures (A.settle ctx usual initial (sweepOrder ctx.graph) limit p) m fun p' m' =>
      K.Holds ctx initial p' m' ∧ ∀ b ∈ sweepOrder ctx.graph, SettledIn K A ctx initial p' b := by
  induction limit generalizing p m with
  | zero =>
    rw [settle]
    exact Visit.ensures_throw _ _ _
  | succ limit ih =>
    rw [settle, Visit.ensures_bind]
    have h' : K.Holds ctx initial { p with passes := p.passes + 1 } m := ⟨h.machine, h.exits, h.blocks, h.others⟩
    refine (sweep_advances hK valid (fun _ hb => hb) h').mono fun r m₁ swept => ?_
    obtain ⟨p₁, changed⟩ := r
    cases changed with
    | true => exact ih swept.holds
    | false =>
      show Visit.Ensures (pure p₁) m₁ _
      rw [Visit.ensures_pure]
      exact ⟨swept.holds, swept.settled rfl⟩

/-- Cancelled work ends at the first block of a sweep. -/
theorem run_settle_of_cancelled (initial : State V) (b : Block) (l : List Block) (limit : Nat) (p : Progress V)
    {m : Machine V} (h : m.ledger.cancelled = true) :
    ExceptT.run (A.settle ctx usual initial (b :: l) (limit + 1) p) m = (.error .cancelled, m) := by
  have visit (p : Progress V) : ExceptT.run (A.visitBlock ctx usual initial b p) m = (.error .cancelled, m) :=
    Visit.run_of_cancelled h
  have sweep (p : Progress V) : ExceptT.run (A.sweep ctx usual initial (b :: l) p) m = (.error .cancelled, m) := by
    rw [Analysis.sweep, Visit.run_bind, visit]
  rw [settle, Visit.run_bind, sweep]

/-! ### Solutions -/

/-- The usual way to handle calls in some run of the solver. -/
def IsUsual (A : Analysis V) (ctx : Context V) (usual : Call V → Visit V V) : Prop :=
  ∃ deeper, usual = A.handleCall ctx deeper

/-- A run that succeeds has a result. -/
theorem exists_of_isOk {ε α β : Type} {r : Except ε α × β} (h : r.1.isOk = true) : ∃ a b, r = (.ok a, b) := by
  obtain ⟨r, b⟩ := r
  cases r with
  | error e => cases h
  | ok a => exact ⟨a, b, rfl⟩

/-- If something is found in the result of a run, then the run succeeds and that is in its result. -/
theorem exists_of_inspected {ε α β γ δ : Type} {r : Except ε α × β} {g : α → Option γ} {f : γ → δ} {y : δ}
    (h : (r.1.toOption.bind fun a => (g a).map f) = some y) : ∃ a b c, r = (.ok a, b) ∧ g a = some c ∧ f c = y := by
  obtain ⟨r, b⟩ := r
  cases r with
  | error e => cases h
  | ok a =>
    obtain ⟨c, hc, hy⟩ := Option.map_eq_some_iff.1 h
    exact ⟨a, b, c, rfl, hc, hy⟩

/-- What a run over a body starts from. -/
def startOf (ctx : Context V) (ledger : Ledger V) : Machine V :=
  ⟨State.empty, Notes.start (Resolver.start ctx.owner ctx.tracksUnknown), ledger⟩

/-- A run over a body, from what is left of the visit of the body. -/
theorem run_solveBody (usual : Call V → Visit V V) (l : Ledger V) : ExceptT.run (A.solveBody ctx usual) l =
    match ExceptT.run (A.settleBody ctx usual) (startOf ctx l) with
    | (.ok p, m) => (.ok (A.solutionOf ctx p m.notes), m.ledger)
    | (.error e, m) => (.error e, m.ledger) := by
  have run : ExceptT.run (A.solveBody ctx usual) l =
      ((ExceptT.run (A.settleBody ctx usual) (startOf ctx l)).1.map
          (A.solutionOf ctx · (ExceptT.run (A.settleBody ctx usual) (startOf ctx l)).2.notes),
        (ExceptT.run (A.settleBody ctx usual) (startOf ctx l)).2.ledger) := rfl
  rw [run]
  rcases ExceptT.run (A.settleBody ctx usual) (startOf ctx l) with ⟨e | p, m⟩ <;> rfl

/-- A run over a body succeeds if the visit of the body does. -/
theorem run_solveBody_eq_ok {usual : Call V → Visit V V} {l l' : Ledger V} {sol : Solution V} :
    ExceptT.run (A.solveBody ctx usual) l = (.ok sol, l') ↔
      ∃ p m, ExceptT.run (A.settleBody ctx usual) (startOf ctx l) = (.ok p, m) ∧ sol = A.solutionOf ctx p m.notes ∧
        l' = m.ledger := by
  rw [run_solveBody]
  rcases ExceptT.run (A.settleBody ctx usual) (startOf ctx l) with ⟨e | p, m⟩
  · exact ⟨fun h => (by cases h), fun ⟨_, _, h, _⟩ => by cases h⟩
  · constructor
    · intro h
      cases h
      exact ⟨p, m, rfl, rfl, rfl⟩
    · rintro ⟨p, m, h, rfl, rfl⟩
      cases h
      rfl

variable (A ctx) in
/-- A run is one of the body. No call is followed if the chain of calls has its length already. -/
theorem exists_solveBody : ∃ deeper, A.solve ctx = A.solveBody ctx (A.handleCall ctx deeper) ∧
    (ctx.config.calls.maxCallChain.toNat ≤ ctx.callStack.length → deeper = none) := by
  unfold solve
  cases room : ctx.config.calls.maxCallChain.toNat - ctx.callStack.length with
  | zero => exact ⟨none, rfl, fun _ => rfl⟩
  | succ depth => exact ⟨some (A.solveWithin depth), rfl, fun h => by omega⟩

/-- What a solution is made of, if calls are handled in some way: the progress of the last sweep and the notes of all
visits. The invariant holds of them, and every swept block is settled. -/
theorem solveBody_holds {ledger ledger' : Ledger V} {sol : Solution V}
    (h : (A.solveBody ctx usual).run ledger = (.ok sol, ledger')) (valid : ctx.graph.Valid)
    (machine : K.machine ⟨State.empty, Notes.start (Resolver.start ctx.owner ctx.tracksUnknown), ledger⟩)
    (hK : ∀ initial, A.initialState ctx = .ok initial → K.Kept A ctx usual initial) :
    ∃ initial p m, A.initialState ctx = .ok initial ∧ sol = A.solutionOf ctx p m.notes ∧
      K.Holds ctx initial p m ∧ ∀ b ∈ sweepOrder ctx.graph, SettledIn K A ctx initial p b := by
  obtain ⟨p, m, hrun, rfl, -⟩ := run_solveBody_eq_ok.1 h
  have spec : Visit.Ensures (A.settleBody ctx usual)
      ⟨State.empty, Notes.start (Resolver.start ctx.owner ctx.tracksUnknown), ledger⟩ fun p' m' =>
        ∃ initial, A.initialState ctx = .ok initial ∧ K.Holds ctx initial p' m' ∧
          ∀ b ∈ sweepOrder ctx.graph, SettledIn K A ctx initial p' b := by
    unfold settleBody
    rw [Visit.ensures_bind, Visit.ensures_check]
    intro initial hinitial
    have start : K.Holds ctx initial Progress.start
        ⟨State.empty, Notes.start (Resolver.start ctx.owner ctx.tracksUnknown), ledger⟩ :=
      ⟨machine, fun _ _ hi => by simp [Progress.start] at hi, fun _ _ _ hs => by simp [Progress.start] at hs,
        fun _ _ => ⟨rfl, rfl⟩⟩
    exact (settle_settles (hK initial hinitial) valid start).mono fun p' m' hp => ⟨initial, hinitial, hp⟩
  obtain ⟨initial, hinitial, hholds, hsettled⟩ := spec p m hrun
  exact ⟨initial, p, m, hinitial, rfl, hholds, hsettled⟩

/-- The same, whatever solves the bodies of callees. -/
theorem solve_holds {ledger ledger' : Ledger V} {sol : Solution V}
    (h : (A.solve ctx).run ledger = (.ok sol, ledger')) (valid : ctx.graph.Valid)
    (machine : ∀ m : Machine V, m.notes = Notes.start (Resolver.start ctx.owner ctx.tracksUnknown) → K.machine m)
    (hK : ∀ usual, IsUsual A ctx usual → ∀ initial, A.initialState ctx = .ok initial →
      K.Kept A ctx usual initial) :
    ∃ initial p m, A.initialState ctx = .ok initial ∧ sol = A.solutionOf ctx p m.notes ∧
      K.Holds ctx initial p m ∧ ∀ b ∈ sweepOrder ctx.graph, SettledIn K A ctx initial p b := by
  obtain ⟨deeper, eq, -⟩ := exists_solveBody A ctx
  rw [eq] at h
  exact solveBody_holds h valid (machine _ rfl) (hK _ ⟨deeper, rfl⟩)

/-- Into a block that control can reach some state flows: its predecessor on the way there was
visited, for a state flowed into it. -/
theorem exists_inflow_of_reachable {p : Progress V} {m : Machine V} (valid : ctx.graph.Valid)
    (hholds : K.Holds ctx initial p m) (hsettled : ∀ b ∈ sweepOrder ctx.graph, SettledIn K A ctx initial p b)
    {i : BlockId} (hi : ctx.graph.Reachable i) {b : Block} (hb : ctx.graph.block? i = some b) :
    ∃ input, p.inflow A.domain ctx.graph initial b = some input := by
  induction hi generalizing b with
  | entry =>
    have hentry := (valid.isEntry_iff (Graph.mem_of_block? hb)).2 (valid.id_of_block? hb)
    exact ⟨initial, Progress.inflow_of_isEntry hentry⟩
  | @branch j k hj hk ih =>
    obtain ⟨c, hc⟩ := valid.exists_of_reachable hj
    have hswept := mem_sweepOrder valid hj hc
    obtain ⟨input, hinput⟩ := ih hc
    obtain ⟨s, hs, -⟩ := hsettled c hswept input hinput
    obtain ⟨-, -, out, hout, -⟩ := hholds.blocks c hswept s hs
    cases hb' : b.isEntry with
    | true => exact ⟨initial, Progress.inflow_of_isEntry hb'⟩
    | false =>
      rw [Progress.inflow_of_not_isEntry hb']
      refine State.mergeAll_isSome (List.ne_nil_of_mem (List.mem_filterMap.2 ⟨c.id, ?_, hout⟩))
      rw [Graph.mem_successors hc] at hk
      rw [valid.id_of_block? hb]
      exact Graph.mem_predecessors.2 ⟨c, Graph.mem_of_block? hc, rfl, hk⟩

/-- The blocks that control can reach have states, and no others. -/
theorem isSome_states_iff {p : Progress V} {m : Machine V} (valid : ctx.graph.Valid)
    (hholds : K.Holds ctx initial p m) (hsettled : ∀ b ∈ sweepOrder ctx.graph, SettledIn K A ctx initial p b) (i : BlockId) :
    ((p.entries.find? i).isSome ↔ ctx.graph.Reachable i) ∧ ((p.exits.find? i).isSome ↔ ctx.graph.Reachable i) := by
  by_cases hi : ctx.graph.Reachable i
  · obtain ⟨b, hb⟩ := valid.exists_of_reachable hi
    have hswept := mem_sweepOrder valid hi hb
    obtain ⟨input, hinput⟩ := exists_inflow_of_reachable valid hholds hsettled hi hb
    obtain ⟨s, hs, -⟩ := hsettled b hswept input hinput
    obtain ⟨-, -, out, hout, -⟩ := hholds.blocks b hswept s hs
    rw [valid.id_of_block? hb] at hs hout
    simp [hs, hout, hi]
  · obtain ⟨hentry, hexit⟩ := hholds.others i fun b hb same => hi (same ▸ reachable_of_mem_sweepOrder valid hb)
    simp [hentry, hexit, hi]

/-- A block that control can reach was visited. What is true of whatever flows in, and what widening keeps, is true of
the state that it was visited in. -/
theorem exists_visit_of_reachable {p : Progress V} {m : Machine V} (valid : ctx.graph.Valid)
    (hholds : K.Holds ctx initial p m) (hsettled : ∀ b ∈ sweepOrder ctx.graph, SettledIn K A ctx initial p b)
    {P : State V → Prop} (widen : ∀ s t, K.state s → P t → P (State.widen A.domain s t)) {i : BlockId}
    (hi : ctx.graph.Reachable i) {b : Block} (hb : ctx.graph.block? i = some b)
    (flows : ∀ input, p.inflow A.domain ctx.graph initial b = some input → P input) :
    ∃ s out, p.exits.find? b.id = some out ∧ K.block b s out m.notes ∧ P s := by
  have hswept := mem_sweepOrder valid hi hb
  obtain ⟨input, hinput⟩ := exists_inflow_of_reachable valid hholds hsettled hi hb
  obtain ⟨s, hs, hstate⟩ := hsettled b hswept input hinput
  obtain ⟨-, -, out, hout, hblock⟩ := hholds.blocks b hswept s hs
  refine ⟨s, out, hout, hblock, ?_⟩
  rcases hstate with rfl | ⟨-, previous, hprevious, rfl⟩
  · exact flows s hinput
  · exact widen previous input hprevious (flows input hinput)

omit [DecidableEq V] in
/-- What is true of the state at the end of a block is true of what flows into the blocks after it, if merging it with
other states keeps it. -/
theorem inflow_of_mem_successors {p : Progress V} {m : Machine V} (valid : ctx.graph.Valid)
    (hholds : K.Holds ctx initial p m) (hmerge : ∀ s t, K.state s → K.state t → K.state (State.merge A.domain s t))
    {P : State V → Prop} (keeps : ∀ s t, K.state s → K.state t → P s ∨ P t → P (State.merge A.domain s t))
    {b c : Block} {i : BlockId} (hb : b ∈ ctx.graph.blocks) (hi : i ∈ b.successors) (hc : ctx.graph.block? i = some c)
    {out : State V} (hout : p.exits.find? b.id = some out) (hP : P out) {input : State V}
    (h : p.inflow A.domain ctx.graph initial c = some input) : P input := by
  rw [Progress.inflow_of_not_isEntry (valid.isEntry_of_mem_successors hb hi hc), valid.id_of_block? hc] at h
  refine State.mergeAll_of_mem hmerge (fun s t hs ht h => keeps s t hs ht (.inl h))
    (fun s t hs ht h => keeps s t hs ht (.inr h)) (fun s hs => ?_) (List.mem_filterMap.2 ⟨b.id, ?_, hout⟩) hP h
  · obtain ⟨j, -, hj⟩ := List.mem_filterMap.1 hs
    exact hholds.exits j s hj
  · exact Graph.mem_predecessors.2 ⟨b, hb, rfl, hi⟩

end Analysis

end Dataflow
