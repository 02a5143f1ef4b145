import Dataflow.Proofs.Settling.Runs
import Dataflow.Proofs.State.Writes

/-!
# Bodies that never settle

A loop that names storage by the storage that it named the time before never runs out of names, and widening
is of no use against that: it works on the values of entities, but each visit adds an entity.

## What is proved

`Endless.settle_endless`: if every visit of a loop makes its state mention one more of infinitely many
entities, no number of sweeps is enough. What the visits remember of each other is a parameter.
-/

namespace Dataflow

namespace Endless

variable {V : Type}

/-! ### A loop -/

/-- The block that is run over and over. -/
def head (operations : List Operation) : Block :=
  ⟨⟨2⟩, .block, operations, none, [⟨⟨2⟩, .regular⟩, ⟨⟨1⟩, .regular⟩], []⟩

/-- Where control enters. -/
def first : Block := ⟨⟨0⟩, .entry, [], none, [⟨⟨2⟩, .regular⟩], []⟩

/-- Where control leaves. -/
def last : Block := ⟨⟨1⟩, .exit, [], none, [], []⟩

/-- Runs some operations over and over. -/
def loop (operations : List Operation) : Graph :=
  ⟨⟨"M", .method, none, none, .value, 0⟩, [], [first, last, head operations]⟩

theorem loop_valid (operations : List Operation) : (loop operations).Valid := rfl

theorem sweepOrder_loop (operations : List Operation) :
    Analysis.sweepOrder (loop operations) = [first, head operations, last] := rfl

/-! ### States that fall behind -/

/-- A state does not mention the entities of a sequence from some place on. -/
def Fresh (cell : Nat → Entity) (n : Nat) (s : State V) : Prop := ∀ k, n ≤ k → (s.find? (cell k)).isSome = false

variable {cell : Nat → Entity} {n : Nat} {s t : State V} {D : Domain V}

theorem Fresh.succ (h : Fresh cell n s) : Fresh cell (n + 1) s := fun k hk => h k (Nat.le_of_succ_le hk)

theorem Fresh.merge (hs : Fresh cell n s) (ht : Fresh cell n t) : Fresh cell n (State.merge D s t) := by
  intro k hk
  rw [State.find?_merge, if_neg]
  · rfl
  · simp [hs k hk, ht k hk]

theorem Fresh.widen [DecidableEq V] (hs : Fresh cell n s) (ht : Fresh cell n t) :
    Fresh cell n (State.widen D s t) := by
  intro k hk
  rw [State.find?_widen, if_neg]
  · rfl
  · simp [hs k hk, ht k hk]

/-- A state mentions an entity that another one does not mention. -/
def News (s t : State V) : Prop := ∃ e, (s.find? e).isSome = false ∧ (t.find? e).isSome = true

theorem News.ne (h : News s t) : s ≠ t := by
  rintro rfl
  obtain ⟨e, hs, ht⟩ := h
  rw [hs] at ht
  cases ht

theorem News.widen [DecidableEq V] (h : News s t) : News s (State.widen D s t) := by
  obtain ⟨e, hs, ht⟩ := h
  exact ⟨e, hs, by rw [State.find?_widen, if_pos (.inr ht)]; rfl⟩

theorem News.mergeAll (h : News s t) {l : List (State V)} (ht : t ∈ l) {u : State V}
    (hu : State.mergeAll D l = some u) : News s u := by
  obtain ⟨e, hs, he⟩ := h
  refine ⟨e, hs, State.mergeAll_of_mem (G := fun _ => True) (P := fun r : State V => (r.find? e).isSome = true)
    (fun _ _ _ _ => trivial) (fun a b _ _ ha => ?_) (fun a b _ _ hb => ?_) (fun _ _ => trivial) ht he hu⟩
  · rw [State.find?_merge, if_pos (.inl ha)]
    rfl
  · rw [State.find?_merge, if_pos (.inr hb)]
    rfl

section Sweeps

variable [DecidableEq V] {A : Analysis V} {ctx : Context V} {usual : Call V → Visit V V} {initial : State V}
variable {stage : Nat → Notes V → Prop} {operations : List Operation} {p : Progress V} {m : Machine V} {b : Block}

/-- A block that something new flows into is visited. -/
theorem exists_nextEntry (threshold : Nat) {input : State V}
    (hinput : p.inflow D ctx.graph initial b = some input)
    (news : ∀ s, p.entries.find? b.id = some s → News s input) :
    ∃ s, p.nextEntry D ctx.graph threshold initial b = some s := by
  unfold Progress.nextEntry
  rw [hinput]
  cases hs : p.entries.find? b.id with
  | none => exact ⟨_, rfl⟩
  | some s =>
    dsimp only
    rw [if_neg (news s hs).ne]
    split
    · rw [if_neg (news s hs).widen.ne]
      exact ⟨_, rfl⟩
    · exact ⟨_, rfl⟩

/-- A visit of a block puts down the state that it is visited in and the state that it leaves. -/
theorem yields_visitBlock (running : m.ledger.cancelled = false)
    (hs : p.nextEntry A.domain ctx.graph ctx.config.visitsBeforeWidening.toNat initial b = some s)
    {Q : State V → Machine V → Prop} (run : Visit.Yields (A.runBlock ctx usual b s) m Q) :
    Visit.Yields (A.visitBlock ctx usual initial b p) m fun r m' => ∃ out, Q out m' ∧
      r.1.entries = p.entries.insert b.id s ∧ r.1.exits = p.exits.insert b.id out ∧
        (p.exits.find? b.id ≠ some out → r.2 = true) := by
  unfold Analysis.visitBlock
  rw [Visit.yields_bind, Visit.yields_checkCancelled, hs]
  refine ⟨running, ?_⟩
  dsimp only
  rw [Visit.yields_bind]
  refine run.mono fun out m' hout => ?_
  split
  · rename_i same
    rw [Visit.yields_pure]
    refine ⟨out, hout, rfl, FinMap.ext fun i => ?_, fun hne => absurd same hne⟩
    by_cases hi : i = b.id
    · subst hi
      rw [FinMap.find?_insert_self]
      exact same
    · rw [FinMap.find?_insert_ne _ _ hi]
      rfl
  · rw [Visit.yields_pure]
    exact ⟨out, hout, rfl, rfl, fun _ => rfl⟩

/-- What holds between visits of blocks: the states fall behind, and if the loop was visited, then what it
left is new to it. -/
structure Ahead (cell : Nat → Entity) (stage : Nat → Notes V → Prop) (n : Nat) (p : Progress V) (m : Machine V) :
    Prop where
  /-- The work is not cancelled. -/
  running : m.ledger.cancelled = false
  /-- What was noted. -/
  notes : stage n m.notes
  /-- The states at the starts of blocks. -/
  entries : ∀ i s, p.entries.find? i = some s → Fresh cell n s
  /-- The states at the ends of blocks. -/
  exits : ∀ i s, p.exits.find? i = some s → Fresh cell n s
  /-- A block that was visited has left something. -/
  left : ∀ i s, p.entries.find? i = some s → ∃ out, p.exits.find? i = some out
  /-- The loop has left something new. -/
  news : ∀ s out, p.entries.find? ⟨2⟩ = some s → p.exits.find? ⟨2⟩ = some out → News s out

/-- Each visit of a loop names one more entity of a sequence. -/
structure Names (A : Analysis V) (ctx : Context V) (usual : Call V → Visit V V) (operations : List Operation)
    (cell : Nat → Entity) (stage : Nat → Notes V → Prop) : Prop where
  /-- The body. -/
  graph : ctx.graph = loop operations
  /-- The initial state mentions none of them. -/
  initial : ∃ s, A.initialState ctx = .ok s ∧ Fresh cell 0 s
  /-- What is noted to begin with. -/
  start : stage 0 (Notes.start (Resolver.start ctx.owner ctx.tracksUnknown))
  /-- A visit of the loop. -/
  run : ∀ n (m : Machine V) s, m.ledger.cancelled = false → stage n m.notes → Fresh cell n s →
    Visit.Yields (A.runBlock ctx usual (head operations) s) m fun out m' =>
      m'.ledger = m.ledger ∧ stage (n + 1) m'.notes ∧ (out.find? (cell n)).isSome = true ∧ Fresh cell (n + 1) out

theorem fresh_of_nextEntry (h : Ahead cell stage n p m) (hinitial : Fresh cell n initial) {threshold : Nat}
    (hs : p.nextEntry A.domain ctx.graph threshold initial b = some s) : Fresh cell n s := by
  obtain ⟨input, hinput, hs⟩ := Progress.eq_of_nextEntry_eq_some hs
  have fresh : Fresh cell n input := Progress.inflow_induction hinitial (fun _ _ => Fresh.merge) h.exits hinput
  rcases hs with rfl | ⟨-, previous, hprev, -, rfl⟩
  · exact fresh
  · exact (h.entries _ _ hprev).widen fresh

theorem exists_find?_insert {α : Type} {f g : FinMap BlockId α} {i j : BlockId} {v w u : α}
    (hf : ∀ i w, f.find? i = some w → ∃ out, g.find? i = some out) (h : (f.insert j v).find? i = some w) :
    ∃ out, (g.insert j u).find? i = some out := by
  by_cases hi : i = j
  · subst hi
    exact ⟨u, FinMap.find?_insert_self _ _ _⟩
  · rw [FinMap.find?_insert_ne _ _ hi] at h
    rw [FinMap.find?_insert_ne _ _ hi]
    exact hf i w h

/-- A block without operations leaves what it is visited in. -/
theorem visitBlock_bare (hops : b.allOperations = []) (hscope : b.leavingScope = []) (hb : b.id ≠ ⟨2⟩)
    (hinitial : Fresh cell n initial) (h : Ahead cell stage n p m) :
    Visit.Yields (A.visitBlock ctx usual initial b p) m fun r m' => Ahead cell stage n r.1 m' ∧
      (b.isEntry = true → ∃ out, r.1.exits.find? b.id = some out) := by
  cases hs : p.nextEntry A.domain ctx.graph ctx.config.visitsBeforeWidening.toNat initial b with
  | none =>
    unfold Analysis.visitBlock
    rw [Visit.yields_bind, Visit.yields_checkCancelled, hs]
    refine ⟨h.running, ?_⟩
    rw [Visit.yields_pure]
    refine ⟨h, fun hentry => ?_⟩
    cases hprev : p.entries.find? b.id with
    | none => simp [Progress.nextEntry, Progress.inflow_of_isEntry hentry, hprev] at hs
    | some s => exact h.left _ s hprev
  | some s =>
    have run : Visit.Yields (A.runBlock ctx usual b s) m fun out m' => out = s ∧ m' = { m with state := s } := by
      unfold Analysis.runBlock Analysis.leaveScope
      rw [hops, hscope]
      simp
    refine (yields_visitBlock h.running hs run).mono fun r m' after => ?_
    obtain ⟨out, ⟨hout, hm⟩, hentries, hexits, -⟩ := after
    subst hout hm
    have fresh := fresh_of_nextEntry h hinitial hs
    refine ⟨⟨h.running, h.notes, fun i t ht => ?_, fun i t ht => ?_, fun i t ht => ?_, fun t u ht hu => ?_⟩, fun _ => ?_⟩
    · exact FinMap.find?_insert_ind (hentries ▸ ht) fresh h.entries
    · exact FinMap.find?_insert_ind (hexits ▸ ht) fresh h.exits
    · exact hexits ▸ exists_find?_insert h.left (hentries ▸ ht)
    · rw [hentries, FinMap.find?_insert_ne _ _ hb.symm] at ht
      rw [hexits, FinMap.find?_insert_ne _ _ hb.symm] at hu
      exact h.news t u ht hu
    · rw [hexits]
      exact ⟨_, FinMap.find?_insert_self _ _ _⟩

/-- Once the entry was visited, the loop is visited, and leaves something new to it. -/
theorem visitBlock_head (names : Names A ctx usual operations cell stage) (hinitial : Fresh cell n initial)
    (h : Ahead cell stage n p m) (entered : ∃ out, p.exits.find? ⟨0⟩ = some out) :
    Visit.Yields (A.visitBlock ctx usual initial (head operations) p) m fun r m' =>
      Ahead cell stage (n + 1) r.1 m' ∧ r.2 = true := by
  have inflow : p.inflow A.domain ctx.graph initial (head operations) =
      State.mergeAll A.domain ([⟨0⟩, ⟨2⟩].filterMap p.exits.find?) := by
    rw [Progress.inflow_of_not_isEntry rfl, names.graph]
    rfl
  obtain ⟨input, hinput⟩ : ∃ input, p.inflow A.domain ctx.graph initial (head operations) = some input := by
    obtain ⟨out, hout⟩ := entered
    rw [inflow]
    exact State.mergeAll_isSome (List.ne_nil_of_mem (List.mem_filterMap.2 ⟨_, List.mem_cons_self, hout⟩))
  obtain ⟨s, hs⟩ := exists_nextEntry ctx.config.visitsBeforeWidening.toNat hinput fun s hs => by
    obtain ⟨out, hout⟩ := h.left _ s hs
    exact (h.news s out hs hout).mergeAll (List.mem_filterMap.2 ⟨(head operations).id, by simp [head], hout⟩) (inflow ▸ hinput)
  have fresh := fresh_of_nextEntry h hinitial hs
  refine (yields_visitBlock h.running hs (names.run n m s h.running h.notes fresh)).mono
    fun r m' after => ?_
  obtain ⟨out, ⟨hledger, hnotes, hout, fresh'⟩, hentries, hexits, hchanged⟩ := after
  have new : News s out := ⟨_, fresh n (Nat.le_refl n), hout⟩
  refine ⟨⟨hledger ▸ h.running, hnotes, fun i t ht => ?_, fun i t ht => ?_, fun i t ht => ?_, fun t u ht hu => ?_⟩,
    hchanged fun hprev => ?_⟩
  · exact FinMap.find?_insert_ind (hentries ▸ ht) fresh.succ fun i w hw => (h.entries i w hw).succ
  · exact FinMap.find?_insert_ind (hexits ▸ ht) fresh' fun i w hw => (h.exits i w hw).succ
  · exact hexits ▸ exists_find?_insert h.left (hentries ▸ ht)
  · rw [hentries] at ht
    rw [hexits] at hu
    obtain rfl := Option.some.inj ((FinMap.find?_insert_self p.entries (head operations).id s).symm.trans ht)
    obtain rfl := Option.some.inj ((FinMap.find?_insert_self p.exits (head operations).id out).symm.trans hu)
    exact new
  · rw [h.exits _ _ hprev n (Nat.le_refl n)] at hout
    cases hout

/-- A sweep visits the loop, and changes something. -/
theorem sweep_ahead (names : Names A ctx usual operations cell stage) (hinitial : Fresh cell 0 initial)
    (h : Ahead cell stage n p m) :
    Visit.Yields (A.sweep ctx usual initial (Analysis.sweepOrder ctx.graph) p) m fun r m' =>
      Ahead cell stage (n + 1) r.1 m' ∧ r.2 = true := by
  have fresh : ∀ n, Fresh cell n initial := fun n k _ => hinitial k (Nat.zero_le k)
  rw [names.graph, sweepOrder_loop]
  simp only [Analysis.sweep, Visit.yields_bind, Visit.yields_pure]
  refine (visitBlock_bare (b := first) rfl rfl (by decide) (fresh n) h).mono fun r₀ m₀ after => ?_
  obtain ⟨h₀, entered⟩ := after
  refine (visitBlock_head names (fresh n) h₀ (entered rfl)).mono fun r₁ m₁ after => ?_
  obtain ⟨h₁, changed⟩ := after
  refine (visitBlock_bare (b := last) rfl rfl (by decide) (fresh (n + 1)) h₁).mono fun r₂ m₂ after => ?_
  obtain ⟨h₂, -⟩ := after
  exact ⟨h₂, by simp [changed]⟩

/-- No number of sweeps is enough. -/
theorem settleWithin_endless (names : Names A ctx usual operations cell stage) (limit : Nat) :
    ∃ m, ExceptT.run (A.settleWithin ctx usual limit) (ctx.firstMachine (Ledger.start false)) = (.error .endless, m) := by
  obtain ⟨initial, hinitial, fresh⟩ := names.initial
  rw [Analysis.run_settleWithin hinitial]
  have start : Ahead cell stage 0 Progress.start (ctx.firstMachine (Ledger.start false)) := by
    refine ⟨rfl, names.start, ?_, ?_, ?_, ?_⟩ <;>
    · intro _ _ h
      simp [Progress.start] at h
  revert start
  generalize Progress.start = p
  generalize ctx.firstMachine (Ledger.start false) = m
  generalize 0 = n
  induction limit generalizing n p m with
  | zero => exact fun _ => ⟨m, rfl⟩
  | succ limit ih =>
    intro h
    have h' : Ahead cell stage n { p with passes := p.passes + 1 } m := ⟨h.running, h.notes, h.entries, h.exits, h.left, h.news⟩
    obtain ⟨⟨p', changed⟩, m', hsweep, later, rfl⟩ := sweep_ahead names fresh h'
    rw [Analysis.settle, Visit.run_bind, hsweep]
    exact ih p' m' (n + 1) later

theorem not_settles (names : Names A ctx usual operations cell stage) :
    ¬ A.Settles ctx usual (Ledger.start false) := by
  rintro ⟨n, p, m, h⟩
  obtain ⟨m', h'⟩ := settleWithin_endless names n
  rw [h n (Nat.le_refl n)] at h'
  cases h'

end Sweeps

end Endless

end Dataflow
