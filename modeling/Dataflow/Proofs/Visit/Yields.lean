import Dataflow.Proofs.Visit.Ensures

/-!
# What a visit yields

`Ensures` says nothing of a visit that fails. `Yields x m Q` says more: the visit `x` of the
machine `m` succeeds, and `Q` holds of its result and of the machine afterwards.

## What is proved

As for `Ensures`, each step of a visit is described by what must hold before it, and loops over
lists have one rule (`yields_forM`). Where a step may fail, what it yields includes that it
does not: a check passes, and the work was not cancelled.
-/

namespace Dataflow

namespace Visit

variable {V α β : Type}

/-- The visit succeeds, and its result and the machine afterwards satisfy `Q`. -/
def Yields (x : Visit V α) (m : Machine V) (Q : α → Machine V → Prop) : Prop :=
  ∃ a m', ExceptT.run x m = (.ok a, m') ∧ Q a m'

theorem Yields.mono {x : Visit V α} {m : Machine V} {Q R : α → Machine V → Prop} (h : Yields x m Q)
    (hQR : ∀ a m', Q a m' → R a m') : Yields x m R := by
  obtain ⟨a, m', hx, hQ⟩ := h
  exact ⟨a, m', hx, hQR a m' hQ⟩

/-! ### Steps -/

@[simp]
theorem yields_pure (a : α) (m : Machine V) (Q : α → Machine V → Prop) : Yields (pure a) m Q ↔ Q a m := by
  constructor
  · rintro ⟨b, m', hx, hQ⟩
    cases hx
    exact hQ
  · exact fun h => ⟨a, m, rfl, h⟩

@[simp]
theorem yields_bind (x : Visit V α) (f : α → Visit V β) (m : Machine V) (Q : β → Machine V → Prop) :
    Yields (x >>= f) m Q ↔ Yields x m fun a m' => Yields (f a) m' Q := by
  unfold Yields
  rw [run_bind]
  rcases h : ExceptT.run x m with ⟨e | a, m'⟩
  · refine iff_of_false ?_ ?_ <;>
    · rintro ⟨_, _, heq, -⟩
      cases heq
  · constructor
    · exact fun ⟨b, m'', hf, hQ⟩ => ⟨a, m', rfl, b, m'', hf, hQ⟩
    · rintro ⟨_, _, heq, b, m'', hf, hQ⟩
      cases heq
      exact ⟨b, m'', hf, hQ⟩

@[simp]
theorem yields_map (f : α → β) (x : Visit V α) (m : Machine V) (Q : β → Machine V → Prop) :
    Yields (f <$> x) m Q ↔ Yields x m fun a m' => Q (f a) m' := by
  rw [map_eq_pure_bind, yields_bind]
  simp only [yields_pure]

@[simp]
theorem yields_get (m : Machine V) (Q : Machine V → Machine V → Prop) : Yields get m Q ↔ Q m m := by
  constructor
  · rintro ⟨a, m', hx, hQ⟩
    cases hx
    exact hQ
  · exact fun h => ⟨m, m, rfl, h⟩

@[simp]
theorem yields_modify (f : Machine V → Machine V) (m : Machine V) (Q : PUnit → Machine V → Prop) :
    Yields (modify f) m Q ↔ Q ⟨⟩ (f m) := by
  constructor
  · rintro ⟨a, m', hx, hQ⟩
    cases hx
    exact hQ
  · exact fun h => ⟨⟨⟩, f m, rfl, h⟩

@[simp]
theorem yields_check (c : Checked α) (m : Machine V) (Q : α → Machine V → Prop) :
    Yields (check c) m Q ↔ ∃ a, c = .ok a ∧ Q a m := by
  cases c with
  | error e =>
    refine iff_of_false ?_ (by simp)
    rintro ⟨a, m', hx, -⟩
    cases hx
  | ok a => simp [check]

@[simp]
theorem yields_state (m : Machine V) (Q : State V → Machine V → Prop) : Yields state m Q ↔ Q m.state m := by
  simp [state]

@[simp]
theorem yields_setState (s : State V) (m : Machine V) (Q : Unit → Machine V → Prop) :
    Yields (setState s) m Q ↔ Q () { m with state := s } := by
  simp [setState]

@[simp]
theorem yields_update (f : State V → Checked (State V)) (m : Machine V) (Q : Unit → Machine V → Prop) :
    Yields (update f) m Q ↔ ∃ s, f m.state = .ok s ∧ Q () { m with state := s } := by
  simp [update]

@[simp]
theorem yields_checkCancelled (m : Machine V) (Q : Unit → Machine V → Prop) :
    Yields checkCancelled m Q ↔ m.ledger.cancelled = false ∧ Q () m := by
  unfold checkCancelled
  rw [yields_bind, yields_get]
  cases m.ledger.cancelled with
  | false => simp
  | true =>
    refine iff_of_false ?_ (by simp)
    rintro ⟨a, m', hx, -⟩
    cases hx

@[simp]
theorem yields_notes (m : Machine V) (Q : Notes V → Machine V → Prop) : Yields notes m Q ↔ Q m.notes m := by
  simp [notes]

@[simp]
theorem yields_modifyNotes (f : Notes V → Notes V) (m : Machine V) (Q : Unit → Machine V → Prop) :
    Yields (modifyNotes f) m Q ↔ Q () { m with notes := f m.notes } := by
  simp [modifyNotes]

@[simp]
theorem yields_entityOf (op : OperationId) (m : Machine V) (Q : Option Entity → Machine V → Prop) :
    Yields (entityOf op) m Q ↔ Q (m.notes.entities.find? op) m := by
  simp [entityOf]

@[simp]
theorem yields_modifyHits (f : HitLog → HitLog) (m : Machine V) (Q : Unit → Machine V → Prop) :
    Yields (modifyHits f) m Q ↔ Q () { m with notes := { m.notes with hits := f m.notes.hits } } := by
  simp [modifyHits]

@[simp]
theorem yields_recordValue (op : OperationId) (v : V) (m : Machine V) (Q : Unit → Machine V → Prop) :
    Yields (recordValue op v) m Q ↔
      Q () { m with notes := { m.notes with values := m.notes.values.insert op v } } := by
  simp [recordValue]

@[simp]
theorem yields_recordBefore (op : OperationId) (m : Machine V) (Q : Unit → Machine V → Prop) :
    Yields (recordBefore op) m Q ↔
      Q () { m with notes := { m.notes with before := m.notes.before.insert op m.state } } := by
  simp [recordBefore]

@[simp]
theorem yields_recordReturn (op : OperationId) (v : V) (m : Machine V) (Q : Unit → Machine V → Prop) :
    Yields (recordReturn op v) m Q ↔
      Q () { m with notes := { m.notes with returns := m.notes.returns.insert op v } } := by
  simp [recordReturn]

/-! ### Loops -/

@[simp]
theorem yields_forM_nil (f : β → Visit V PUnit) (m : Machine V) (Q : PUnit → Machine V → Prop) :
    Yields (([] : List β).forM f) m Q ↔ Q ⟨⟩ m :=
  yields_pure _ _ _

@[simp]
theorem yields_forM_cons (b : β) (l : List β) (f : β → Visit V PUnit) (m : Machine V)
    (Q : PUnit → Machine V → Prop) :
    Yields ((b :: l).forM f) m Q ↔ Yields (f b) m fun _ m' => Yields (l.forM f) m' Q :=
  yields_bind _ _ _ _

theorem yields_forM_append (l l' : List β) (f : β → Visit V PUnit) (m : Machine V) (Q : PUnit → Machine V → Prop) :
    Yields ((l ++ l').forM f) m Q ↔ Yields (l.forM f) m fun _ m' => Yields (l'.forM f) m' Q := by
  induction l generalizing m with
  | nil => rw [List.nil_append, yields_forM_nil]
  | cons b l ih =>
    rw [List.cons_append, yields_forM_cons, yields_forM_cons]
    simp only [ih]

/-- If what holds before a loop lets each step succeed and is kept by it, the loop succeeds and keeps
it. -/
theorem yields_forM {l : List β} {f : β → Visit V PUnit} {P : Machine V → Prop}
    (step : ∀ b ∈ l, ∀ m, P m → Yields (f b) m fun _ m' => P m') {m : Machine V} (h : P m) :
    Yields (l.forM f) m fun _ m' => P m' := by
  induction l generalizing m with
  | nil => exact (yields_forM_nil _ _ _).2 h
  | cons b l ih =>
    rw [yields_forM_cons]
    refine (step b List.mem_cons_self m h).mono fun _ m' h' => ?_
    exact ih (fun c hc => step c (List.mem_cons_of_mem _ hc)) h'

end Visit

end Dataflow
