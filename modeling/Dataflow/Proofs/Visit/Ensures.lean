import Dataflow.Analysis.Solver

/-!
# What a visit ensures

A visit works on a machine and may fail. `Ensures x m Q` says that `Q` holds of the
result and of the machine afterwards if the visit `x` of the machine `m` succeeds. Of a
visit that fails nothing is said: its failure is the answer of the whole run, and no
solution is made of what it left.

## What is proved

Each step of a visit is described by what must hold before it (`ensures_bind` and the
lemmas after it), so that a `do` block is taken apart by rewriting. Loops over lists have
one rule each for the two ways in which they are used (`ensures_forM`, `ensures_forM_of`).
-/

namespace Dataflow

namespace Visit

/-- Two computations on a state one after the other, of which either may fail. -/
theorem run_bind {σ α β : Type} (x : ExceptT Failure (StateM σ) α) (f : α → ExceptT Failure (StateM σ) β) (m : σ) :
    ExceptT.run (x >>= f) m =
      match ExceptT.run x m with
      | (.ok a, m') => ExceptT.run (f a) m'
      | (.error e, m') => (.error e, m') := by
  simp only [bind, ExceptT.bind, ExceptT.run, ExceptT.mk, StateT.bind, ExceptT.bindCont]
  rcases x m with ⟨a | a, m'⟩ <;> rfl

/-- A failure of what comes first is the failure of the whole. -/
theorem run_bind_error {σ α β : Type} {x : ExceptT Failure (StateM σ) α} {f : α → ExceptT Failure (StateM σ) β} {m : σ}
    {e : Failure} (h : (ExceptT.run x m).1 = .error e) : (ExceptT.run (x >>= f) m).1 = .error e := by
  rw [run_bind]
  rcases hx : ExceptT.run x m with ⟨f | a, m'⟩
  · rw [hx] at h
    exact congrArg _ (Except.error.inj h)
  · rw [hx] at h
    cases h

/-- The whole succeeds if what comes first and what comes then does. -/
theorem run_bind_eq_ok {σ α β : Type} {x : ExceptT Failure (StateM σ) α} {f : α → ExceptT Failure (StateM σ) β}
    {m m' : σ} {b : β} : ExceptT.run (x >>= f) m = (.ok b, m') ↔
      ∃ a m₁, ExceptT.run x m = (.ok a, m₁) ∧ ExceptT.run (f a) m₁ = (.ok b, m') := by
  rw [run_bind]
  rcases ExceptT.run x m with ⟨e | a, m₁⟩
  · exact ⟨fun h => (by cases h), fun ⟨_, _, h, _⟩ => by cases h⟩
  · exact ⟨fun h => ⟨a, m₁, rfl, h⟩, fun ⟨_, _, same, h⟩ => by cases same; exact h⟩

variable {V α β : Type}

/-- A check for cancellation leaves the machine as it is. -/
theorem run_checkCancelled_eq (m : Machine V) :
    ExceptT.run (checkCancelled : Visit V Unit) m = (if m.ledger.cancelled then .error .cancelled else .ok (), m) := by
  rcases m with ⟨s, n, nodes, summaries, contextual, cancelled⟩
  cases cancelled <;> rfl

/-- Nothing is done any more once the work was cancelled. -/
theorem run_of_cancelled {x : Visit V α} {m : Machine V} (h : m.ledger.cancelled = true) :
    ExceptT.run (checkCancelled >>= fun _ => x) m = (.error .cancelled, m) := by
  rw [run_bind, run_checkCancelled_eq, h]
  rfl

theorem run_of_running {x : Visit V α} {m : Machine V} (h : m.ledger.cancelled = false) :
    ExceptT.run (checkCancelled >>= fun _ => x) m = ExceptT.run x m := by
  rw [run_bind, run_checkCancelled_eq, h]
  rfl

/-- If the visit succeeds, then its result and the machine afterwards satisfy `Q`. -/
def Ensures (x : Visit V α) (m : Machine V) (Q : α → Machine V → Prop) : Prop :=
  ∀ a m', ExceptT.run x m = (.ok a, m') → Q a m'

theorem Ensures.mono {x : Visit V α} {m : Machine V} {Q R : α → Machine V → Prop} (h : Ensures x m Q)
    (hQR : ∀ a m', Q a m' → R a m') : Ensures x m R :=
  fun a m' hx => hQR a m' (h a m' hx)

/-! ### Steps -/

@[simp]
theorem ensures_pure (a : α) (m : Machine V) (Q : α → Machine V → Prop) :
    Ensures (pure a) m Q ↔ Q a m := by
  constructor
  · exact fun h => h a m rfl
  · intro h a' m' hx
    cases hx
    exact h

@[simp]
theorem ensures_bind (x : Visit V α) (f : α → Visit V β) (m : Machine V) (Q : β → Machine V → Prop) :
    Ensures (x >>= f) m Q ↔ Ensures x m fun a m' => Ensures (f a) m' Q := by
  constructor
  · exact fun h a m' hx b m'' hf => h b m'' (run_bind_eq_ok.2 ⟨a, m', hx, hf⟩)
  · intro h b m'' hx
    obtain ⟨a, m', hx, hf⟩ := run_bind_eq_ok.1 hx
    exact h a m' hx b m'' hf

@[simp]
theorem ensures_map (f : α → β) (x : Visit V α) (m : Machine V) (Q : β → Machine V → Prop) :
    Ensures (f <$> x) m Q ↔ Ensures x m fun a m' => Q (f a) m' := by
  rw [map_eq_pure_bind, ensures_bind]
  simp only [ensures_pure]

@[simp]
theorem ensures_throw (e : Failure) (m : Machine V) (Q : α → Machine V → Prop) :
    Ensures (throw e) m Q := by
  intro a m' hx
  cases hx

@[simp]
theorem ensures_get (m : Machine V) (Q : Machine V → Machine V → Prop) : Ensures get m Q ↔ Q m m := by
  constructor
  · exact fun h => h m m rfl
  · intro h a m' hx
    cases hx
    exact h

@[simp]
theorem ensures_modify (f : Machine V → Machine V) (m : Machine V) (Q : PUnit → Machine V → Prop) :
    Ensures (modify f) m Q ↔ Q ⟨⟩ (f m) := by
  constructor
  · exact fun h => h ⟨⟩ (f m) rfl
  · intro h a m' hx
    cases hx
    exact h

@[simp]
theorem ensures_check (c : Checked α) (m : Machine V) (Q : α → Machine V → Prop) :
    Ensures (check c) m Q ↔ ∀ a, c = .ok a → Q a m := by
  cases c with
  | error e => simp [check]
  | ok a => simp [check]

@[simp]
theorem ensures_state (m : Machine V) (Q : State V → Machine V → Prop) :
    Ensures state m Q ↔ Q m.state m := by
  simp [state]

@[simp]
theorem ensures_setState (s : State V) (m : Machine V) (Q : Unit → Machine V → Prop) :
    Ensures (setState s) m Q ↔ Q () { m with state := s } := by
  simp [setState]

@[simp]
theorem ensures_update (f : State V → Checked (State V)) (m : Machine V) (Q : Unit → Machine V → Prop) :
    Ensures (update f) m Q ↔ ∀ s, f m.state = .ok s → Q () { m with state := s } := by
  simp [update]

@[simp]
theorem ensures_checkCancelled (m : Machine V) (Q : Unit → Machine V → Prop) :
    Ensures checkCancelled m Q ↔ (m.ledger.cancelled = false → Q () m) := by
  unfold checkCancelled
  rw [ensures_bind, ensures_get]
  cases m.ledger.cancelled <;> simp

@[simp]
theorem ensures_notes (m : Machine V) (Q : Notes V → Machine V → Prop) :
    Ensures notes m Q ↔ Q m.notes m := by
  simp [notes]

@[simp]
theorem ensures_modifyNotes (f : Notes V → Notes V) (m : Machine V) (Q : Unit → Machine V → Prop) :
    Ensures (modifyNotes f) m Q ↔ Q () { m with notes := f m.notes } := by
  simp [modifyNotes]

@[simp]
theorem ensures_entityOf (op : OperationId) (m : Machine V) (Q : Option Entity → Machine V → Prop) :
    Ensures (entityOf op) m Q ↔ Q (m.notes.entities.find? op) m := by
  simp [entityOf]

@[simp]
theorem ensures_modifyHits (f : HitLog → HitLog) (m : Machine V) (Q : Unit → Machine V → Prop) :
    Ensures (modifyHits f) m Q ↔ Q () { m with notes := { m.notes with hits := f m.notes.hits } } := by
  simp [modifyHits]

@[simp]
theorem ensures_recordValue (op : OperationId) (v : V) (m : Machine V) (Q : Unit → Machine V → Prop) :
    Ensures (recordValue op v) m Q ↔
      Q () { m with notes := { m.notes with values := m.notes.values.insert op v } } := by
  simp [recordValue]

@[simp]
theorem ensures_recordBefore (op : OperationId) (m : Machine V) (Q : Unit → Machine V → Prop) :
    Ensures (recordBefore op) m Q ↔
      Q () { m with notes := { m.notes with before := m.notes.before.insert op m.state } } := by
  simp [recordBefore]

@[simp]
theorem ensures_recordReturn (op : OperationId) (v : V) (m : Machine V) (Q : Unit → Machine V → Prop) :
    Ensures (recordReturn op v) m Q ↔
      Q () { m with notes := { m.notes with returns := m.notes.returns.insert op v } } := by
  simp [recordReturn]

/-- Resolving an operation notes the answer and the entity. -/
theorem ensures_resolve_some {op : Operation} {owner : Option PointsTo} {indices : List ElementIndex}
    {m : Machine V} {e : Entity} {r : Resolver}
    (h : m.notes.resolver.resolve op owner indices = (some e, r)) (Q : Option Entity → Machine V → Prop) :
    Ensures (resolve op owner indices) m Q ↔
      Q (some e) { m with notes := { m.notes with resolver := r, entities := m.notes.entities.insert op.id e } } := by
  simp [resolve, recordEntity, h]

@[simp]
theorem ensures_originsOf (op : OperationId) (m : Machine V) (Q : FinSet SymbolAccess → Machine V → Prop) :
    Ensures (originsOf op) m Q ↔ Q ((m.notes.operationOrigins.find? op).getD FinSet.empty) m := by
  simp [originsOf]

@[simp]
theorem ensures_entityOriginsOf (e : Option Entity) (m : Machine V) (Q : FinSet SymbolAccess → Machine V → Prop) :
    Ensures (entityOriginsOf e) m Q ↔ Q ((e.bind m.notes.entityOrigins.find?).getD FinSet.empty) m := by
  simp [entityOriginsOf]

/-- Origins are looked up without an effect. -/
theorem ensures_originsOfAll {ops : List Operation} {m : Machine V} {Q : FinSet SymbolAccess → Machine V → Prop}
    (h : ∀ origins, Q origins m) : Ensures (originsOfAll ops) m Q := by
  unfold originsOfAll
  rw [ensures_bind, ensures_notes, ensures_pure]
  exact h _

/-! ### Loops -/

@[simp]
theorem ensures_forM_nil (f : β → Visit V PUnit) (m : Machine V) (Q : PUnit → Machine V → Prop) :
    Ensures (([] : List β).forM f) m Q ↔ Q ⟨⟩ m :=
  ensures_pure _ _ _

@[simp]
theorem ensures_forM_cons (b : β) (l : List β) (f : β → Visit V PUnit) (m : Machine V)
    (Q : PUnit → Machine V → Prop) :
    Ensures ((b :: l).forM f) m Q ↔ Ensures (f b) m fun _ m' => Ensures (l.forM f) m' Q :=
  ensures_bind _ _ _ _

theorem ensures_forM_append (l l' : List β) (f : β → Visit V PUnit) (m : Machine V) (Q : PUnit → Machine V → Prop) :
    Ensures ((l ++ l').forM f) m Q ↔ Ensures (l.forM f) m fun _ m' => Ensures (l'.forM f) m' Q := by
  induction l generalizing m with
  | nil => rw [List.nil_append, ensures_forM_nil]
  | cons b l ih => simp only [List.cons_append, ensures_forM_cons, ih]

/-- What holds before a loop and is kept by each of its steps holds after it. -/
theorem ensures_forM {l : List β} {f : β → Visit V PUnit} {P : Machine V → Prop}
    (step : ∀ b ∈ l, ∀ m, P m → Ensures (f b) m fun _ m' => P m') {m : Machine V} (h : P m) :
    Ensures (l.forM f) m fun _ m' => P m' := by
  induction l generalizing m with
  | nil => exact (ensures_forM_nil _ _ _).2 h
  | cons b l ih =>
    rw [ensures_forM_cons]
    refine (step b List.mem_cons_self m h).mono fun _ m' h' => ?_
    exact ih (fun c hc => step c (List.mem_cons_of_mem _ hc)) h'

end Visit

end Dataflow
