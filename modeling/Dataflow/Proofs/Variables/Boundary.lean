import Dataflow.Proofs.Solver.Sweeps
import Dataflow.Proofs.State.Writes
import Dataflow.Proofs.Variables.Reading

/-!
# What comes from elsewhere

A body gets its parameters from its caller. If no call is followed, a call may return
anything, and it may store anything into the variables that it gets by reference.

## What is proved

A state that a body starts in has the analysis' value of parameters for these, and says nothing
about other variables (`valueOr_defaultEntry`).

At an opaque call an analysis writes its escaped value to the variables that are passed by
reference, and to what else the call can reach; that is no variable of the body. So what a hook
for calls owes follows from what single writes of the escaped value owe (`Reading.Escapes`,
`invoke_sound`). The writes to variables are taken one after the other, each together with the
part of the store that it accounts for.
-/

namespace Dataflow

variable {V C : Type}

/-- What writes of the escaped value owe. -/
structure Reading.Escapes (R : Reading V C) (A : Analysis V) (owner : Symbol) : Prop where
  /-- After a write to a variable it may hold anything. -/
  overwrite : ∀ x s s', R.good s →
    A.write (.localVar x owner) (A.escapedValue (.localVar x owner)) s = .ok s' →
      R.good s' ∧ ∀ σ v, R.fits s σ → R.fits s' (σ.set x v)
  /-- A write to anything but the storage of a method does not touch the variables. -/
  others : ∀ e s s', e.isMethodLocal = false → R.good s → A.write e (A.escapedValue e) s = .ok s' →
    R.good s' ∧ ∀ σ, R.fits s σ → R.fits s' σ

namespace Analysis

variable {A : Analysis V}

/-! ### Parameters -/

/-- The parameters of a body and its receiver start with the value that the analysis gives
them, and no other entity is mentioned. -/
theorem valueOr_defaultEntry {ctx : Context V} {s : State V} (h : A.defaultEntry ctx = .ok s) (e : Entity) :
    (e ∈ initialEntities ctx ∧ A.parameterValue e = .ok (State.valueOr A.domain s e)) ∨
      (e ∉ initialEntities ctx ∧ State.valueOr A.domain s e = A.domain.missing e) := by
  have general : ∀ (l : List Entity) (t : State V),
      l.foldlM (fun s e => return s.insert e (← A.parameterValue e)) t = .ok s →
        (e ∈ l ∧ A.parameterValue e = .ok (State.valueOr A.domain s e)) ∨
          (e ∉ l ∧ State.valueOr A.domain s e = State.valueOr A.domain t e) := by
    intro l
    induction l with
    | nil =>
      intro t ht
      obtain rfl : t = s := Except.ok.inj ht
      exact .inr ⟨List.not_mem_nil, rfl⟩
    | cons a l ih =>
      intro t ht
      rw [List.foldlM_cons] at ht
      cases ha : A.parameterValue a with
      | error f =>
        rw [ha] at ht
        cases ht
      | ok v =>
        rw [ha] at ht
        rcases ih (t.insert a v) ht with ⟨hmem, hv⟩ | ⟨hmem, hv⟩
        · exact .inl ⟨List.mem_cons_of_mem _ hmem, hv⟩
        · by_cases hea : e = a
          · subst hea
            rw [State.valueOr_insert_self] at hv
            exact .inl ⟨List.mem_cons_self, hv ▸ ha⟩
          · rw [State.valueOr_insert_ne A.domain t v hea] at hv
            exact .inr ⟨by simp [hea, hmem], hv⟩
  rcases general (initialEntities ctx) State.empty h with ⟨hmem, hv⟩ | ⟨hmem, hv⟩
  · exact .inl ⟨hmem, hv⟩
  · exact .inr ⟨hmem, hv.trans (State.valueOr_empty _ _)⟩

/-- Without an entry from a caller a body starts in the default entry. -/
theorem initialState_eq_defaultEntry {ctx : Context V} (entry : ctx.entry = none) :
    A.initialState ctx = A.defaultEntry ctx := by
  unfold initialState
  rw [entry]

/-- A variable is an initial entity if it is a parameter. -/
theorem localVar_mem_initialEntities {ctx : Context V} {x : Symbol} :
    Entity.localVar x ctx.owner ∈ initialEntities ctx ↔ x ∈ ctx.graph.parameters := by
  unfold initialEntities
  constructor
  · intro h
    rcases List.mem_append.1 h with h | h
    · obtain ⟨y, hy, he⟩ := List.mem_map.1 h
      cases he
      exact hy
    · split at h <;> simp at h
  · exact fun h => List.mem_append_left _ (List.mem_map.2 ⟨x, h, rfl⟩)

/-! ### Calls -/

/-- Only candidates are reached. -/
theorem mem_of_mem_closure {everything : Bool} {s : State V} {rounds : Nat} {objects : List Location}
    {candidates : List Entity} {e : Entity} (h : e ∈ A.closure everything s rounds objects candidates) :
    e ∈ candidates := by
  induction rounds generalizing objects candidates with
  | zero =>
    rw [closure] at h
    cases h
  | succ rounds ih =>
    rw [closure, List.partition_eq_filter_filter] at h
    split at h
    · cases h
    · rename_i reached others hp
      obtain ⟨rfl, rfl⟩ := Prod.mk.inj hp
      rcases List.mem_append.1 h with h | h
      · exact (List.mem_filter.1 h).1
      · exact (List.mem_filter.1 (ih h)).1

/-- What a call reaches through its operands is no storage of a method. -/
theorem isMethodLocal_of_mem_escaped {config : Config} {call : Call V} {s : State V} {e : Entity}
    (h : e ∈ A.escaped config call s) : e.isMethodLocal = false := by
  have := (List.mem_filter.1 (mem_of_mem_closure h)).2
  simpa using this

end Analysis

variable {R : Reading V C} {A : Analysis V} {ctx : Context V}

/-- Variables escape one after the other: after each write the state fits a store in which the
variables up to there have what they have in the end. -/
theorem escapeVariables_fits (E : R.Escapes A ctx.owner) {xs : List Symbol} {m : Machine V}
    (good : R.good m.state) :
    Visit.Ensures (A.escapeAll (xs.map (Entity.localVar · ctx.owner))) m fun _ m' =>
      R.good m'.state ∧ m'.notes = m.notes ∧
        ∀ σ σ' : Store C, R.fits m.state σ → (∀ y, y ∉ xs → σ' y = σ y) → R.fits m'.state σ' := by
  unfold Analysis.escapeAll Analysis.storeAll
  rw [List.map_map]
  induction xs generalizing m with
  | nil =>
    rw [List.map_nil, Visit.ensures_forM_nil]
    refine ⟨good, rfl, fun σ σ' hfits hothers => ?_⟩
    obtain rfl : σ' = σ := funext fun y => hothers y List.not_mem_nil
    exact hfits
  | cons x xs ih =>
    rw [List.map_cons, Visit.ensures_forM_cons]
    refine (Visit.ensures_update _ _ _).2 fun s hs => ?_
    obtain ⟨hgood, hwritten⟩ := E.overwrite x m.state s good hs
    refine (ih (m := { m with state := s }) hgood).mono fun _ m' h => ?_
    obtain ⟨hgood', hnotes, hrest⟩ := h
    refine ⟨hgood', hnotes, fun σ σ' hfits hothers => ?_⟩
    refine hrest (σ.set x (σ' x)) σ' (hwritten σ (σ' x) hfits) fun y hy => ?_
    by_cases hyx : y = x
    · rw [hyx, Store.set_self]
    · rw [Store.set_of_ne σ _ hyx]
      exact hothers y (by simp [hyx, hy])

/-- What escapes besides variables does not matter to them. -/
theorem escapeOthers_fits (E : R.Escapes A ctx.owner) {l : List Entity} (hl : ∀ e ∈ l, e.isMethodLocal = false)
    {m : Machine V} (good : R.good m.state) :
    Visit.Ensures (A.escapeAll l) m fun _ m' =>
      R.good m'.state ∧ m'.notes = m.notes ∧ ∀ σ, R.fits m.state σ → R.fits m'.state σ := by
  unfold Analysis.escapeAll Analysis.storeAll
  refine Visit.ensures_forM (P := fun m' =>
    R.good m'.state ∧ m'.notes = m.notes ∧ ∀ σ, R.fits m.state σ → R.fits m'.state σ) ?_
    ⟨good, rfl, fun σ hσ => hσ⟩
  rintro ⟨e, v⟩ hmem m₁ ⟨hgood, hnotes, hfits⟩
  obtain ⟨a, ha, he⟩ := List.mem_map.1 hmem
  obtain ⟨rfl, rfl⟩ := Prod.mk.inj he
  refine (Visit.ensures_update _ _ _).2 fun s hs => ?_
  obtain ⟨hgood', hwritten⟩ := E.others a m₁.state s (hl a ha) hgood hs
  exact ⟨hgood', hnotes, fun σ hσ => hwritten σ (hfits σ hσ)⟩

/-- A call that is not followed. -/
theorem invoke_sound (E : R.Escapes A ctx.owner) {M : Meaning C} (call : Call V) (xs : List Symbol) (m : Machine V)
    (good : R.good m.state) (passed : Analysis.passedStorage call = xs.map (Entity.localVar · ctx.owner))
    (result : ∀ s σ w, R.good s → M.call call.method w → R.describes s σ (A.unknownValue call.operation) w) :
    Visit.Ensures (A.callOpaquely ctx.config call) m fun b m' =>
      R.good m'.state ∧ m.SameNotes m' ∧
        ∀ σ σ' w, R.fits m.state σ → Store.Overwritten xs σ σ' → M.call call.method w →
          R.fits m'.state σ' ∧ R.describes m'.state σ' b w := by
  unfold Analysis.callOpaquely Analysis.escapeReachable
  simp only [Visit.ensures_bind, Visit.ensures_state, Visit.ensures_pure]
  rw [passed]
  refine (escapeVariables_fits E good).mono fun _ m₁ h₁ => ?_
  obtain ⟨hgood₁, hnotes₁, hfits₁⟩ := h₁
  refine (escapeOthers_fits E (fun e he => Analysis.isMethodLocal_of_mem_escaped he) hgood₁).mono fun _ m₂ h₂ => ?_
  obtain ⟨hgood₂, hnotes₂, hfits₂⟩ := h₂
  have hnotes := hnotes₂.trans hnotes₁
  refine ⟨hgood₂, ⟨by rw [hnotes], by rw [hnotes], by rw [hnotes], by rw [hnotes]⟩, fun σ σ' w hσ hover hw => ?_⟩
  exact ⟨hfits₂ σ' (hfits₁ σ σ' hσ hover.others), result m₂.state σ' w hgood₂ hw⟩

/-- The usual handling of calls when none is followed. -/
theorem handleCall_eq_callOpaquely [DecidableEq V] (h : ctx.config.calls.handling = .none)
    {usual : Call V → Visit V V} (husual : Analysis.IsUsual A ctx usual) :
    usual = A.callOpaquely ctx.config := by
  obtain ⟨deeper, rfl⟩ := husual
  funext call
  unfold Analysis.handleCall
  exact if_pos h

end Dataflow
