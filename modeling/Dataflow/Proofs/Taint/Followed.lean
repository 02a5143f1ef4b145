import Dataflow.Proofs.Calls.Leaks
import Dataflow.Proofs.Calls.Runs
import Dataflow.Proofs.Taint.Origins

/-!
# Origins across calls

A callee is analysed on its own: it starts without notes of origins, and its caller takes over its hits, the values in
storage and the result, but no origins. These come to a call from its operands.

## The notions

* `Analysis.handedBack`: what a callee that was analysed leaves in its caller's storage.
* `Traces`: in a turn untrusted data goes nowhere without its origins.

## What is proved

A call that traces its data is accounted for if its operands are and the hits of its callee have sources
(`call_accounted`).
-/

namespace Dataflow

namespace Analysis

/-! ### What callees hand back -/

/-- What a callee that was analysed leaves in its caller's storage. -/
def handedBack {V : Type} [DecidableEq V] (A : Analysis V) (ctx : Context V) (call : Call V) (sol : Solution V) (s : State V) :
    List (Entity × V) :=
  let given := A.passedBack call sol (ctx.config.calls.handling == .inContext)
  given ++ if ctx.config.calls.handling = .inContext then
    sol.finish.elim [] fun exit => news sol.owner exit (State.writeAll A.domain given s) else []

theorem ensures_storeAll {V : Type} {A : Analysis V} (plain : A.write = fun e v s => .ok (State.write A.domain e v s))
    (l : List (Entity × V)) (m : Machine V) (Q : Unit → Machine V → Prop) :
    Visit.Ensures (A.storeAll l) m Q ↔ Q ⟨⟩ { m with state := State.writeAll A.domain l m.state } := by
  constructor
  · intro h
    exact h _ _ (run_storeAll plain l m)
  · intro h _ _ run
    rw [run_storeAll plain] at run
    cases run
    exact h

namespace TaintAnalysis

variable {rules : TaintRules} {ctx : Context Taint} {m m' : Machine Taint} {op : Operation}

/-! ### Calls -/

/-- In a turn untrusted data goes nowhere without its origins. -/
structure Traces (rules : TaintRules) (ctx : Context Taint) (t : Visit.Turn Taint) : Prop where
  /-- It is no operand of which no origins are noted. -/
  operands : ∀ x ∈ t.op.operands.zip t.seen, x.2.value = .tainted → isSilent x.1 = false
  /-- Where it is stored, all that may be the same storage has origins. -/
  aliases : ∀ e ∈ storedTaint t, ∀ a ∈ State.aliases e t.machine.state, t.machine.notes.originsIn a ≠ FinSet.empty
  /-- A callee that was analysed hands none back in storage, and returns some only if some was passed to it. -/
  callees : ∀ call ∈ (taint rules).callIn ctx t, leavesToUsual rules call = true →
    ∀ sol ∈ (taint rules).answerIn ctx call t.machine,
      (∀ x ∈ (taint rules).handedBack ctx call sol t.machine.state, x.2 ≠ .tainted) ∧
        (sol.returned = some .tainted → ∃ s ∈ t.seen, s.value = .tainted)

/-- Hits take the origins of arguments. -/
theorem recordHits_evident {call : Call Taint} (evident : m.notes.hits.Evident)
    (known : ∀ a ∈ call.arguments, a.value = .tainted → m.notes.originsAt a.operation ≠ FinSet.empty) :
    Visit.Ensures (recordHits rules ctx call) m fun _ m' =>
      ∃ hits : HitLog, hits.Evident ∧ m' = { m with notes := { m.notes with hits := hits } } := by
  refine Visit.ensures_forM (fun x hx m' hm' => ?_) ⟨m.notes.hits, evident, rfl⟩
  obtain ⟨hits, evident, rfl⟩ := hm'
  obtain ⟨a, position⟩ := x
  unfold recordHit
  dsimp only
  split
  · rename_i hit
    simp only [Bool.and_eq_true, decide_eq_true_eq] at hit
    rw [Visit.ensures_bind, Visit.ensures_originsOf, Visit.ensures_modifyHits]
    refine ⟨_, ?_, rfl⟩
    exact evident.record (known a (List.of_mem_zip hx).1 hit.1)
  · exact (Visit.ensures_pure _ _ _).2 ⟨hits, evident, rfl⟩

variable {call : Call Taint} {sol : Solution Taint}

theorem taint_plain (rules : TaintRules) :
    (taint rules).write = fun e v s => .ok (State.write (taint rules).domain e v s) :=
  rfl

/-- A callee that hands back no untrusted data leaves storage covered. -/
theorem comeBack_covers (covers : m.notes.Covers m.state)
    (storage : ∀ x ∈ (taint rules).handedBack ctx call sol m.state, x.2 ≠ .tainted) :
    Visit.Ensures ((taint rules).comeBack ctx call sol (ctx.config.calls.handling == .inContext)) m fun v m' =>
      m'.notes = m.notes ∧ m'.ledger = m.ledger ∧ m.notes.Covers m'.state ∧
        (v = .tainted → sol.returned = some .tainted) := by
  have result (inContext : Bool) (h : (taint rules).returnedValue inContext
      (sol.returned.getD ((taint rules).unknownValue call.operation)) = .tainted) : sol.returned = some .tainted := by
    have same : (taint rules).returnedValue inContext (sol.returned.getD .notTainted) = sol.returned.getD .notTainted := by
      cases inContext <;> rfl
    cases returned : sol.returned with
    | none =>
      rw [returned] at h
      cases inContext <;> cases h
    | some v =>
      rw [returned] at h same
      exact congrArg some (same.symm.trans h)
  have given := covers.writeAll fun x hx => storage x (List.mem_append_left _ hx)
  rw [comeBack, Visit.ensures_bind, ensures_storeAll (taint_plain rules)]
  by_cases handling : ctx.config.calls.handling = .inContext
  · simp only [handling, beq_self_eq_true, if_true] at given ⊢
    cases finish : sol.finish with
    | none => exact (Visit.ensures_pure _ _ _).2 ⟨rfl, rfl, given, result true⟩
    | some exit =>
      simp only [Visit.ensures_bind, Visit.ensures_state, ensures_storeAll (taint_plain rules), Visit.ensures_pure]
      refine ⟨trivial, trivial, given.writeAll fun x hx => storage x (List.mem_append_right _ ?_), result true⟩
      simpa [handling, finish] using hx
  · simp only [beq_eq_false_iff_ne.2 handling, Bool.false_eq_true, if_false] at given ⊢
    simp only [escapeReachable, escapeAll, Visit.ensures_bind, Visit.ensures_state, ensures_storeAll (taint_plain rules),
      Visit.ensures_pure]
    refine ⟨trivial, trivial, given.writeAll fun x hx => ?_, result false⟩
    obtain ⟨e, -, rfl⟩ := List.mem_map.1 hx
    exact fun h => by cases h

/-- A call that is handled with a solution takes over the hits of the callee. -/
theorem takeUp_sourced (sourced : Sourced m) (evident : sol.Evident)
    (storage : ∀ x ∈ (taint rules).handedBack ctx call sol m.state, x.2 ≠ .tainted) :
    Visit.Ensures ((taint rules).takeUp ctx call sol) m fun v m' => Sourced m' ∧
      (∀ e, m'.notes.originsIn e = m.notes.originsIn e) ∧ m'.notes.originsAt = m.notes.originsAt ∧
        (v = .tainted → sol.returned = some .tainted) := by
  rw [takeUp, Visit.ensures_bind, Visit.ensures_modifyHits, Visit.ensures_bind, Visit.ensures_modifyNotes]
  show Visit.Ensures ((taint rules).comeBack ctx call sol _) _ _
  refine Visit.Ensures.mono (comeBack_covers sourced.entities storage) fun v m' does => ?_
  obtain ⟨notes, ledger, covers, returned⟩ := does
  refine ⟨⟨?_, ?_, ?_⟩, fun _ => ?_, ?_, returned⟩
  · rw [notes]
    exact covers
  · rw [notes]
    exact sourced.hits.absorb evident
  · rw [ledger]
    exact sourced.files
  · rw [notes]
    rfl
  · rw [notes]
    rfl

/-- A call that is handled in the usual way leaves a machine sourced. -/
theorem usual_sourced {P : Prop} (state : m'.state = m.state) (ledger : m'.ledger = m.ledger) (sourced : Sourced m')
    (answers : Visit.Ensures ((taint rules).answer ctx ((taint rules).deeperIn ctx) call) m fun found after =>
      after.ledger.Files Solution.Evident ∧ ∀ sol ∈ found, sol.Evident)
    (callees : ∀ sol ∈ (taint rules).answerIn ctx call m,
      (∀ x ∈ (taint rules).handedBack ctx call sol m.state, x.2 ≠ .tainted) ∧ (sol.returned = some .tainted → P)) :
    Visit.Ensures ((taint rules).usualIn ctx call) m' fun v m'' => Sourced m'' ∧
      (∀ e, m''.notes.originsIn e = m'.notes.originsIn e) ∧ m''.notes.originsAt = m'.notes.originsAt ∧ (v = .tainted → P) := by
  have aside : Visit.LeavesBody ((taint rules).answer ctx ((taint rules).deeperIn ctx) call) := answer_leavesBody _ call
  obtain ⟨r, after, run⟩ := aside m.state m.ledger
  have before : ExceptT.run ((taint rules).answer ctx ((taint rules).deeperIn ctx) call) m = (r, { m with ledger := after }) :=
    run m.notes
  have now : ExceptT.run ((taint rules).answer ctx ((taint rules).deeperIn ctx) call) m' =
      (r, { m' with ledger := after }) := by
    rw [← state, ← ledger] at run
    exact run m'.notes
  have answered : (taint rules).answerIn ctx call m = r.toOption.join := by rw [answerIn, before]
  rw [usualIn_eq, handleCall_eq_answer, Visit.ensures_bind]
  intro found m₁ hrun
  rw [now] at hrun
  cases hrun
  obtain ⟨files, evident⟩ := answers found _ before
  cases found with
  | none =>
    intro v m₂ hrun
    rw [run_callOpaquely (taint_plain rules)] at hrun
    cases hrun
    refine ⟨⟨sourced.entities.writeAll fun x hx => ?_, sourced.hits, files⟩, fun _ => rfl, rfl, fun h => by cases h⟩
    obtain ⟨e, -, rfl⟩ := List.mem_map.1 hx
    exact fun h => by cases h
  | some sol =>
    obtain ⟨storage, result⟩ := callees sol (by rw [answered]; rfl)
    rw [← state] at storage
    refine Visit.Ensures.mono (takeUp_sourced ⟨sourced.entities, sourced.hits, files⟩ (evident sol rfl) storage)
      fun v m₂ does => ?_
    exact ⟨does.1, does.2.1, does.2.2.1, fun h => result (does.2.2.2 h)⟩

/-- A call notes hits with the origins of its arguments, and its result has the origins of its operands. `m` is the machine
at the turn of the call. -/
theorem invoke_accounted {P : Prop} (state : m'.state = m.state) (ledger : m'.ledger = m.ledger) (sourced : Sourced m')
    (arguments : ∀ a ∈ call.arguments, a.value = .tainted → m'.notes.originsAt a.operation ≠ FinSet.empty)
    (operands : P → ∃ o ∈ call.operation.operands, m'.notes.originsAt o.id ≠ FinSet.empty)
    (answers : leavesToUsual rules call = true →
      Visit.Ensures ((taint rules).answer ctx ((taint rules).deeperIn ctx) call) m fun found after =>
        after.ledger.Files Solution.Evident ∧ ∀ sol ∈ found, sol.Evident)
    (callees : leavesToUsual rules call = true → ∀ sol ∈ (taint rules).answerIn ctx call m,
      (∀ x ∈ (taint rules).handedBack ctx call sol m.state, x.2 ≠ .tainted) ∧ (sol.returned = some .tainted → P)) :
    Visit.Ensures (invoke rules ctx ((taint rules).usualIn ctx) call) m' fun v m'' =>
      Accounted [call.operation.id] call.operation m' v m'' := by
  have clean (m : Machine Taint) (sourced : Sourced m) (v : Taint) (hv : v ≠ .tainted) : Visit.Ensures (do
      Visit.setOrigins call.operation.id FinSet.empty
      return v : Visit Taint Taint) m fun v m' => Accounted [call.operation.id] call.operation m v m' := by
    rw [Visit.ensures_bind]
    refine (ensures_setOrigins_marks _ _ m).mono fun _ m' noted => ?_
    exact (Visit.ensures_pure _ _ _).2 (noted.1.accounted sourced fun h => absurd h hv)
  cases sanitizer : rules.isSanitizer call.method with
  | true =>
    simp only [invoke, sanitizer, if_true]
    exact clean m' sourced _ (by decide)
  | false =>
    have hits : Visit.Ensures (if rules.isSink call.method then recordHits rules ctx call else pure ()) m' fun _ m₁ =>
        ∃ hits : HitLog, hits.Evident ∧ m₁ = { m' with notes := { m'.notes with hits := hits } } := by
      split
      · exact recordHits_evident sourced.hits arguments
      · exact (Visit.ensures_pure _ _ _).2 ⟨_, sourced.hits, rfl⟩
    rw [invoke_of_not_sanitizer sanitizer, Visit.ensures_bind]
    refine hits.mono fun _ m₁ noted => ?_
    obtain ⟨hits, evident, rfl⟩ := noted
    have sourced₁ : Sourced { m' with notes := { m'.notes with hits := hits } } :=
      ⟨sourced.entities, evident, sourced.files⟩
    cases source : rules.isSourceMethod call.method with
    | true =>
      rw [if_pos rfl]
      refine (bringIn_marks _ _ _).mono fun v m₂ noted => ?_
      exact (noted.1.accounted sourced₁ fun _ => .inr noted.2).of_same (fun _ => rfl) rfl
    | false =>
      have leaves : leavesToUsual rules call = true := by simp [leavesToUsual, sanitizer, source]
      rw [if_neg Bool.false_ne_true, Visit.ensures_bind]
      refine Visit.Ensures.mono (usual_sourced state ledger sourced₁ (answers leaves) (callees leaves)) fun v m₂ does => ?_
      obtain ⟨sourced₂, storage, operations, result⟩ := does
      split
      · refine (passOn_marks m₂ fun tainted => ?_).mono fun w m₃ noted => ?_
        · rw [operations]
          exact operands (result tainted)
        · exact (noted.1.accounted sourced₂ fun h => .inr (noted.2 h)).of_same storage operations
      · rename_i trusted
        exact (clean m₂ sourced₂ v trusted).mono fun w m₃ done => done.of_same storage operations

/-- What becomes of a call when its operands have been seen. -/
theorem exists_call (rules : TaintRules) (ctx : Context Taint) (isCall : IsCall op) (seen : List (Seen Taint))
    (m : Machine Taint) :
    ∃ call, (taint rules).callIn ctx ⟨op, seen, m⟩ = some call ∧ call.operation = op ∧
      (∀ usual, (taint rules).own ctx usual op seen = (do
        Visit.modifyHits (·.withdraw op.id)
        invoke rules ctx usual call)) ∧
      ∀ n, List.Forall₂ (Known n) op.operands seen → ∀ a ∈ call.arguments, a.value = .tainted →
        n.originsAt a.operation ≠ FinSet.empty := by
  obtain ⟨info, method, receiver, arguments, rfl⟩ := isCall
  refine ⟨_, rfl, rfl, fun _ => rfl, fun n known a ha tainted => ?_⟩
  obtain ⟨argument, s, hmem, rfl⟩ := exists_of_mem_zipWith ha
  -- The arguments come after the receiver.
  have rest := List.forall₂_drop receiver.toList.length known
  rw [Operation.operands, List.drop_left', List.forall₂_map_left_iff] at rest
  · exact List.forall₂_zip rest hmem tainted
  · rfl

/-- A call hands on the origins of the operands with untrusted data. -/
theorem call_accounted (isCall : IsCall op) {seen : List (Seen Taint)} (sourced : Sourced m)
    (known : List.Forall₂ (Known m.notes) op.operands seen) (traces : Traces rules ctx ⟨op, seen, m⟩)
    (answers : (taint rules).Answers (leavesToUsual rules) Solution.Evident ctx ⟨op, seen, m⟩) :
    Visit.Ensures ((taint rules).own ctx ((taint rules).usualIn ctx) op seen) m fun v m' => Accounted [op.id] op m v m' := by
  obtain ⟨call, turn, rfl, own, arguments⟩ := exists_call rules ctx isCall seen m
  have withdrawn : Sourced { m with notes := { m.notes with hits := m.notes.hits.withdraw call.operation.id } } :=
    ⟨sourced.entities, sourced.hits.withdraw, sourced.files⟩
  rw [own, Visit.ensures_bind, Visit.ensures_modifyHits]
  refine Visit.Ensures.mono (invoke_accounted (m := m) (P := ∃ s ∈ seen, s.value = .tainted) rfl rfl withdrawn
    (arguments m.notes known) (fun passed => ?_) (fun leaves => answers call turn leaves sourced.files)
    fun leaves => traces.callees call turn leaves) fun v m' does => does.of_same (fun _ => rfl) rfl
  obtain ⟨s, hs, tainted⟩ := passed
  exact exists_origin known hs tainted

end TaintAnalysis

end Analysis

end Dataflow
