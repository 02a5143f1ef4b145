import Dataflow.Proofs.Accord.Solver
import Dataflow.Proofs.Calls.Ledger

/-!
# Calls in accord

Calls are handled alike, if what they write agrees and if callees are solved alike. A callee's
solution comes from the ledger or from a run over its body; an accord that is to hold for callers and
callees has to say of ledgers that what is filed there is as it says.

## What is proved

Whatever a call does to its caller agrees (`callOpaquely_agrees`, `comeBack_agrees`), and so does the
whole way to handle it, whether a body is there or not (`handleCall_agrees`). For an accord that is the
same for all bodies this closes the circle: whole runs agree, to any depth of calls
(`solveWithinBy_agrees`).
-/

namespace Dataflow

variable {V α : Type}

/-- A callee starts in a state that is made of the caller's by passing operands. -/
theorem Analysis.calleeEntry_induction {A : Analysis V} {P : State V → Prop} {call : Call V} {callee : Graph} {s : State V}
    (heap : P (if A.crossesCalls then s.filter fun e _ => !e.isMethodLocal else State.empty))
    (pass : ∀ t e, ∀ a ∈ call.operands, P t → P (t.insert e (A.passedValue a e))) : P (A.calleeEntry call callee s) := by
  unfold Analysis.calleeEntry
  extract_lets objects bound
  have arguments : P bound := by
    refine List.foldlRecOn (motive := P) _ _ heap fun t ht b hb => ?_
    obtain ⟨a, parameter⟩ := b
    cases parameter with
    | none => exact ht
    | some parameter => exact pass t _ a (List.mem_append_right _ (List.of_mem_zip hb).1) ht
  cases hreceiver : call.receiver with
  | none => exact arguments
  | some a => exact pass bound _ a (by simp [Call.operands, hreceiver]) arguments

namespace Accord

variable (G : Accord V)

/-- What calls bring into states. -/
structure Passes (A B : Analysis V) : Prop where
  /-- Writes. -/
  write : ∀ e v s, G.state s → G.value v → G.Steps (A.write e v s) (B.write e v s)
  /-- What unknown code leaves. -/
  escaped : ∀ e, G.value (A.escapedValue e)
  /-- What a callee leaves in an entity. -/
  value : ∀ s e, G.state s → G.value (State.valueOr A.domain s e)
  /-- What a callee leaves in an entity that its state mentions. -/
  mentioned : ∀ s e v, G.state s → s.find? e = some v → G.value v
  /-- What a summary says. -/
  summary : ∀ v, G.value v → G.value (A.summaryValue v)
  /-- The filter may cancel all work. -/
  cancel : ∀ ledger, G.ledger ledger → G.ledger { ledger with cancelled := true }

variable {G} {A B : Analysis V} {J : Joining V} {ctx : Context V} {call : Call V} {sol : Solution V}

theorem Passes.self (W : G.Passes A B) : G.Passes A A :=
  { W with write := fun e v s hs hv => ⟨rfl, (W.write e v s hs hv).2⟩ }

/-! ### What a call does to its caller -/

theorem storeAll_agrees (W : G.Passes A B) {l : List (Entity × V)} (hl : ∀ e ∈ l, G.value e.2) :
    G.Agree (A.storeAll l) ((A.over B).storeAll l) fun _ => True :=
  agree_forM fun e he => agree_update fun s hs => W.write e.1 e.2 s hs (hl e he)

theorem escapeAll_agrees (W : G.Passes A B) (l : List Entity) :
    G.Agree (A.escapeAll l) ((A.over B).escapeAll l) fun _ => True := by
  refine storeAll_agrees W fun e he => ?_
  obtain ⟨a, -, rfl⟩ := List.mem_map.1 he
  exact W.escaped a

/-- What can be reached is the same. -/
theorem closure_over (everything : Bool) (s : State V) (rounds : Nat) (objects : List Location) (l : List Entity) :
    (A.over B).closure everything s rounds objects l = A.closure everything s rounds objects l := by
  induction rounds generalizing objects l with
  | zero => rfl
  | succ rounds ih =>
    simp only [Analysis.closure, ih]
    rfl

theorem escapeReachable_agrees (W : G.Passes A B) (config : Config) (call : Call V) :
    G.Agree (A.escapeReachable config call) ((A.over B).escapeReachable config call) fun _ => True :=
  agree_state_bind fun s _ => by
    rw [show (A.over B).escaped config call s = A.escaped config call s from closure_over _ _ _ _ _]
    exact escapeAll_agrees W (A.escaped config call s)

theorem callOpaquely_agrees (H : G.Hooks A B ctx) (W : G.Passes A B) (config : Config) (call : Call V) :
    G.Agree (A.callOpaquely config call) ((A.over B).callOpaquely config call) G.value := by
  refine (escapeAll_agrees W _).bind fun _ _ => (escapeReachable_agrees W config call).bind fun _ _ => ?_
  exact agree_pure (H.unknown _)

theorem returnedValue_agrees (W : G.Passes A B) (inContext : Bool) {v : V} (hv : G.value v) :
    G.value (A.returnedValue inContext v) := by
  unfold Analysis.returnedValue
  split
  · exact hv
  · exact W.summary v hv

theorem value_of_mem_passedBack (W : G.Passes A B) (lasts : sol.Lasts G.state G.value) {inContext : Bool}
    {e : Entity × V} (he : e ∈ A.passedBack call sol inContext) : G.value e.2 := by
  obtain ⟨a, -, ha⟩ := List.mem_filterMap.1 he
  dsimp only at ha
  split at ha
  · obtain rfl := Option.some.inj ha
    refine returnedValue_agrees W inContext ?_
    cases hfinish : sol.finish with
    | none => exact W.escaped _
    | some exit => exact W.value exit _ (lasts.exits _ _ hfinish)
  · cases ha

theorem comeBack_agrees [DecidableEq V] (H : G.Hooks A B ctx) (W : G.Passes A B) (lasts : sol.Lasts G.state G.value)
    (inContext : Bool) :
    G.Agree (A.comeBack ctx call sol inContext) ((A.over B).comeBack ctx call sol inContext) G.value := by
  have result : G.value (A.returnedValue inContext (sol.returned.getD (A.unknownValue call.operation))) := by
    refine returnedValue_agrees W inContext ?_
    cases hreturned : sol.returned with
    | none => exact H.unknown _
    | some v => exact lasts.returned v hreturned
  refine (storeAll_agrees W fun e he => value_of_mem_passedBack W lasts he).bind fun _ _ => ?_
  cases inContext with
  | false => exact (escapeReachable_agrees W ctx.config call).bind fun _ _ => agree_pure result
  | true =>
    cases hfinish : sol.finish with
    | none => exact agree_pure result
    | some exit =>
      refine agree_state_bind fun s _ => ?_
      refine Agree.bind (storeAll_agrees W fun e he => ?_) fun _ _ => agree_pure result
      obtain ⟨he, -⟩ := List.mem_filter.1 he
      exact W.mentioned exit e.1 e.2 (lasts.exits _ _ hfinish) (FinMap.mem_entries.1 he)

/-! ### Following calls -/

/-- What becomes of a machine when the solution of a callee is looked for. -/
theorem run_solution (filed : Ledger V → Option (Solution V)) (file : Solution V → Ledger V → Ledger V) (callee : Graph)
    (r : Run V (Solution V)) (m : Machine V) :
    ExceptT.run (Analysis.solution? ctx filed file callee r) m =
      match filed m.ledger with
      | some sol => (.ok (some sol), m)
      | none =>
        match m.ledger.reserve? (UInt64.ofNat callee.operationCount) ctx.config.calls.maxNodes with
        | .error v => (.error (.violated v), m)
        | .ok none => (.ok none, m)
        | .ok (some ledger) =>
          match ExceptT.run r ledger with
          | (.ok sol, after) => (.ok (some sol), { m with ledger := file sol after })
          | (.error e, after) => (.error e, { m with ledger := after }) := by
  have got : ExceptT.run (get : Visit V (Machine V)) m = (.ok m, m) := rfl
  rw [Analysis.solution?, Visit.run_bind, got]
  dsimp only
  cases filed m.ledger with
  | some sol => rfl
  | none =>
    dsimp only
    rw [Visit.run_bind]
    cases m.ledger.reserve? (UInt64.ofNat callee.operationCount) ctx.config.calls.maxNodes with
    | error v => rfl
    | ok reserved =>
      cases reserved with
      | none => rfl
      | some ledger =>
        have solved : ExceptT.run (Visit.ofRun r) { m with ledger } =
            ((ExceptT.run r ledger).1, { m with ledger := (ExceptT.run r ledger).2 }) := rfl
        show ExceptT.run (Visit.ofRun r >>= _) { m with ledger } = _
        rw [Visit.run_bind, solved]
        dsimp only
        rcases ExceptT.run r ledger with ⟨e | sol, after⟩
        · rfl
        · rfl

/-- A callee's solution is the one that is filed, or the result of a run that is alike. -/
theorem solution_agrees {filed : Ledger V → Option (Solution V)} {file : Solution V → Ledger V → Ledger V} {callee : Graph}
    {r r' : Run V (Solution V)} {P : Solution V → Prop}
    (known : ∀ ledger sol, G.ledger ledger → filed ledger = some sol → P sol)
    (overflow : ∀ ledger v, G.ledger ledger →
      ledger.reserve? (UInt64.ofNat callee.operationCount) ctx.config.calls.maxNodes = .error v →
        G.failure (.violated v) ledger)
    (run : ∀ ledger ledger', G.ledger ledger → filed ledger = none →
      ledger.reserve? (UInt64.ofNat callee.operationCount) ctx.config.calls.maxNodes = .ok (some ledger') →
        ExceptT.run r' ledger' = ExceptT.run r ledger' ∧
          match ExceptT.run r ledger' with
          | (.ok sol, after) => G.ledger (file sol after) ∧ P sol
          | (.error e, after) => G.failure e after) :
    G.Agree (Analysis.solution? ctx filed file callee r) (Analysis.solution? ctx filed file callee r')
      fun found => ∀ sol, found = some sol → P sol := by
  intro m hm
  rw [run_solution, run_solution]
  cases hfiled : filed m.ledger with
  | some sol => exact ⟨rfl, hm, fun t ht => Option.some.inj ht ▸ known m.ledger sol hm.ledger hfiled⟩
  | none =>
    dsimp only
    cases hreserved : m.ledger.reserve? (UInt64.ofNat callee.operationCount) ctx.config.calls.maxNodes with
    | error v => exact ⟨rfl, overflow m.ledger v hm.ledger hreserved⟩
    | ok reserved =>
      cases reserved with
      | none => exact ⟨rfl, hm, fun t ht => by cases ht⟩
      | some ledger =>
        obtain ⟨same, ends⟩ := run m.ledger ledger hm.ledger hfiled hreserved
        dsimp only
        rw [same]
        refine ⟨rfl, ?_⟩
        rcases hr : ExceptT.run r ledger with ⟨e | sol, after⟩
        · rw [hr] at ends
          exact ends
        · rw [hr] at ends
          exact ⟨⟨hm.state, hm.before, hm.returns, ends.1⟩, fun t ht => Option.some.inj ht ▸ ends.2⟩

theorem accepts_agrees (W : G.Passes A B) (method : Symbol) :
    G.Agree (Analysis.accepts ctx method) (Analysis.accepts ctx method) fun _ => True := by
  unfold Analysis.accepts
  cases ctx.config.filter with
  | none => exact agree_pure trivial
  | some filter =>
    dsimp only
    split
    · refine Agree.bind (P := fun _ => True) (fun m hm => ?_) fun _ _ => agree_pure trivial
      exact ⟨rfl, ⟨hm.state, hm.before, hm.returns, W.cancel m.ledger hm.ledger⟩, trivial⟩
    · exact agree_pure trivial

variable [DecidableEq V]

variable (A B ctx) in
/-- Callees are solved alike. -/
def Deepens (G : Accord V) : (deeper deeper' : Option (Context V → Run V (Solution V))) → Prop
  | none, none => True
  | some solve, some solve' => ∀ call callee, ctx.isOnStack call.method = false → ctx.bodies call.method = some callee →
      G.Takes call →
        G.Agree (A.calleeSolution? ctx solve call callee (ctx.config.calls.handling == .inContext))
          ((A.over B).calleeSolution? ctx solve' call callee (ctx.config.calls.handling == .inContext))
          fun found => ∀ sol, found = some sol → A.crossesCalls = true → sol.Lasts G.state G.value
  | _, _ => False

theorem follow_agrees (H : G.Hooks A B ctx) (W : G.Passes A B) {solve solve' : Context V → Run V (Solution V)}
    {callee : Graph} {inContext : Bool}
    (solved : G.Agree (A.calleeSolution? ctx solve call callee inContext)
      ((A.over B).calleeSolution? ctx solve' call callee inContext)
      fun found => ∀ sol, found = some sol → A.crossesCalls = true → sol.Lasts G.state G.value) :
    G.Agree (A.follow ctx solve call callee inContext) ((A.over B).follow ctx solve' call callee inContext) G.value := by
  unfold Analysis.follow
  refine (agree_checkCancelled H.cancelled).bind fun _ _ => solved.bind fun found hfound => ?_
  cases found with
  | none => exact callOpaquely_agrees H W _ call
  | some sol =>
    refine (agree_modifyHits _).bind fun _ _ => ?_
    refine Agree.bind (P := fun _ => True) (agree_modifyNotes ?_ ?_) fun _ _ => ?_
    · exact fun _ => rfl
    · exact fun _ => rfl
    · show G.Agree _ (if A.crossesCalls = true then _ else _) _
      cases hcrosses : A.crossesCalls with
      | true => exact comeBack_agrees H W (hfound sol rfl hcrosses) inContext
      | false => exact callOpaquely_agrees H W _ call

/-- Calls are handled alike if callees are solved alike. -/
theorem handleCall_agrees (H : G.Hooks A B ctx) (W : G.Passes A B) {deeper deeper' : Option (Context V → Run V (Solution V))}
    (deepens : G.Deepens A B ctx deeper deeper') :
    G.Handles (A.handleCall ctx deeper) ((A.over B).handleCall ctx deeper') := by
  intro call hcall
  have opaquely := callOpaquely_agrees H W ctx.config call
  unfold Analysis.handleCall
  split
  · exact opaquely
  · refine (accepts_agrees W call.method).bind fun accepted _ => ?_
    cases accepted with
    | false => exact opaquely
    | true =>
      simp only [Bool.not_true, Bool.false_eq_true, if_false]
      cases hstack : ctx.isOnStack call.method with
      | true => exact opaquely
      | false =>
        match deeper, deeper', deepens with
        | none, none, _ => exact opaquely
        | some solve, some solve', deepens =>
          cases hbody : ctx.bodies call.method with
          | none => exact opaquely
          | some callee => exact follow_agrees H W (deepens call callee hstack hbody hcall)

/-! ### Runs at any depth -/

/-- What an analysis and one that stands in for it owe, so that whole runs agree. The accord is the same for
callers and callees. -/
structure Sound (G : Accord V) (A B : Analysis V) (J : Joining V) : Prop where
  /-- What is filed is as the accord says. -/
  files : ∀ ledger, G.ledger ledger ↔ ledger.Files (Solution.Lasts G.state G.value)
  /-- In every body the hooks agree. -/
  hooks : ∀ ctx, G.Hooks A B ctx
  /-- In every body joining keeps what is said of states. -/
  joins : ∀ ctx : Context V, (∀ s, ctx.entry = some s → G.state s) → G.Joins A ctx
  /-- In every body states are joined alike. -/
  joined : ∀ ctx, G.Joined A J ctx
  /-- Calls bring the same into states. -/
  passes : G.Passes A B
  /-- The states that callees start in. -/
  entry : ∀ call callee s, G.Takes call → G.state s → G.state (A.calleeEntry call callee s)
  /-- The operations may be too many to count. -/
  overflow : G.Allows .countOverflow

theorem calleeSolution_agrees (S : G.Sound A B J) {solve solve' : Context V → Run V (Solution V)}
    (solved : ∀ ctx : Context V, (∀ s, ctx.entry = some s → G.state s) → ∀ ledger, G.ledger ledger →
      G.Concludes (solve ctx) (solve' ctx) (fun sol => sol.Lasts G.state G.value ∧ sol.graph = ctx.graph) ledger)
    (hcall : G.Takes call) (callee : Graph) (inContext : Bool) :
    G.Agree (A.calleeSolution? ctx solve call callee inContext) ((A.over B).calleeSolution? ctx solve' call callee inContext)
      fun found => ∀ sol, found = some sol → A.crossesCalls = true → sol.Lasts G.state G.value := by
  -- A run over the callee in some context, filed in some way.
  have run : ∀ (f : Filing V) (ctx' : Context V), (∀ s, ctx'.entry = some s → G.state s) →
      G.Agree (Analysis.solution? ctx f.find? f.store callee (solve ctx'))
        (Analysis.solution? ctx f.find? f.store callee (solve' ctx'))
        fun found => ∀ sol, found = some sol → A.crossesCalls = true → sol.Lasts G.state G.value := by
    intro f ctx' hentry
    refine solution_agrees (fun ledger sol h hf _ => Filing.of_find? ((S.files ledger).1 h) hf) ?_ ?_
    · intro ledger v h hv
      rw [Ledger.eq_countOverflow_of_reserve? hv]
      exact S.overflow ledger h
    · intro ledger ledger' h _ hreserved
      have h' : G.ledger ledger' := by
        rw [Ledger.eq_of_reserve? hreserved]
        exact (S.files _).2 ((S.files ledger).1 h)
      obtain ⟨same, ends⟩ := solved ctx' hentry ledger' h'
      refine ⟨same, ?_⟩
      rcases hr : ExceptT.run (solve ctx') ledger' with ⟨e | sol, after⟩
      · rw [hr] at ends
        exact ends
      · rw [hr] at ends
        obtain ⟨hafter, lasts, -⟩ := ends
        exact ⟨(S.files _).2 (Filing.files_store ((S.files after).1 hafter) lasts), fun _ => lasts⟩
  cases inContext with
  | true =>
    refine agree_state_bind fun s hs => ?_
    exact run (.inContext ⟨call.method, ctx.callSites ++ [call.operation.id], A.calleeEntry call callee s⟩)
      (ctx.forCallee callee call.operation.id (some (A.calleeEntry call callee s)))
      fun t ht => Option.some.inj ht ▸ S.entry call callee s hcall hs
  | false => exact run (.summary call.method) (ctx.forCallee callee call.operation.id none) fun t ht => by cases ht

/-- Whole runs agree, to any depth of calls. -/
theorem solveWithinBy_agrees (S : G.Sound A B J) (depth : Nat) (ctx : Context V)
    (hentry : ∀ s, ctx.entry = some s → G.state s) (ledger : Ledger V) (hledger : G.ledger ledger) :
    G.Concludes (A.solveWithin depth ctx) ((A.over B).solveWithinBy J depth ctx)
      (fun sol => sol.Lasts G.state G.value ∧ sol.graph = ctx.graph) ledger := by
  induction depth generalizing ctx ledger with
  | zero =>
    have handles : G.Handles (A.handleCall ctx none) ((A.over B).handleCall ctx none) :=
      handleCall_agrees (S.hooks ctx) S.passes trivial
    exact solveBodyBy_agrees (S.hooks ctx) (S.joins ctx hentry) (S.joined ctx) handles hledger
  | succ depth ih =>
    refine solveBodyBy_agrees (S.hooks ctx) (S.joins ctx hentry) (S.joined ctx)
      (handleCall_agrees (S.hooks ctx) S.passes ?_) hledger
    exact fun call callee _ _ hcall => calleeSolution_agrees S ih hcall callee _

/-- The same of runs whose chain of calls may grow as long as is configured. -/
theorem solveBy_agrees (S : G.Sound A B J) (ctx : Context V) (hentry : ∀ s, ctx.entry = some s → G.state s)
    (ledger : Ledger V) (hledger : G.ledger ledger) :
    G.Concludes (A.solve ctx) ((A.over B).solveBy J ctx)
      (fun sol => sol.Lasts G.state G.value ∧ sol.graph = ctx.graph) ledger :=
  solveWithinBy_agrees S _ ctx hentry ledger hledger

end Accord

end Dataflow
