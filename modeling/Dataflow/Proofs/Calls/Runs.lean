import Dataflow.Proofs.Calls.Memo
import Dataflow.Proofs.Calls.Recall

/-!
# The runs that a run causes

A run over a body begins runs over the bodies of callees, at the turns of calls that are followed and whose callee has no
solution on file. Their runs begin further ones, and all of them work on the same ledger.

## The notions

* `Context.mayFollow`: calls of a method may be followed, as far as the context says.
* `Analysis.begun`: the run that begins at the turn of a call.
* `Analysis.runs`: all runs that a run causes, itself included.
* `Analysis.Answers`: a call is answered by solutions with some property only.

## What is proved

What a run establishes of its solution, if its calls are answered by such solutions, holds of the solution of a run that
comes to an end (`of_runs`): the solutions that calls are answered with are on file or come from runs that it causes.
-/

namespace Dataflow

variable {V : Type}

/-- Calls of the method may be followed if it has a body that fits into the budget. -/
def Context.mayFollow (ctx : Context V) (method : Symbol) : Bool :=
  ctx.config.calls.handling ≠ .none && ctx.admits method && !ctx.isOnStack method &&
    decide (ctx.callStack.length < ctx.config.calls.maxCallChain.toNat)

namespace Analysis

variable [DecidableEq V]

section Runs

variable (A : Analysis V) (asks : Call V → Bool)

/-- The run over a callee's body that begins at a turn: its context, and the ledger when it begins. -/
def begun (ctx : Context V) (t : Visit.Turn V) : Option (Context V × Ledger V) := do
  let call ← A.callIn ctx t
  let callee ← ctx.bodies call.method
  if asks call && ctx.mayFollow call.method then
    match (A.filingAt ctx call callee t.machine.state).find? t.machine.ledger,
        t.machine.ledger.reserve? (UInt64.ofNat callee.operationCount) ctx.config.calls.maxNodes with
    | none, .ok (some claimed) => some (A.calleeContext ctx call callee t.machine.state, claimed)
    | _, _ => none
  else none

/-- The runs that a run causes whose chain of calls may grow by `depth`. -/
def runsWithin : (depth : Nat) → Context V → Ledger V → List (Context V × Ledger V)
  | 0, ctx, ledger => [(ctx, ledger)]
  | depth + 1, ctx, ledger => (ctx, ledger) :: ((A.course ctx ledger).filterMap (A.begun asks ctx)).flatMap fun run =>
    runsWithin depth run.1 run.2

/-- The runs that a run causes, itself first. -/
def runs (ctx : Context V) (ledger : Ledger V) : List (Context V × Ledger V) :=
  A.runsWithin asks (ctx.config.calls.maxCallChain.toNat - ctx.callStack.length) ctx ledger

/-- At the turn of a call, if all solutions on file have a property, then so has the solution that the call is answered
with, and all solutions on file after that. -/
def Answers (P : Solution V → Prop) (ctx : Context V) (t : Visit.Turn V) : Prop :=
  ∀ call, A.callIn ctx t = some call → asks call = true → t.machine.ledger.Files P →
    Visit.Ensures (A.answer ctx (A.deeperIn ctx) call) t.machine fun found m => m.ledger.Files P ∧ ∀ s ∈ found, P s

end Runs

variable {A : Analysis V} {asks : Call V → Bool} {ctx : Context V}

omit [DecidableEq V] in
/-- The filter leaves the ledger alone or cancels the work. -/
theorem ensures_accepts (method : Symbol) (m : Machine V) :
    Visit.Ensures (accepts ctx method) m fun accepted m' => accepted = ctx.admits method ∧
      (m' = m ∨ m'.ledger.cancelled = true) ∧ ∀ P, m.ledger.Files P → m'.ledger.Files P := by
  unfold accepts Context.admits
  cases ctx.config.filter with
  | none => exact (Visit.ensures_pure _ _ _).2 ⟨rfl, .inl rfl, fun _ h => h⟩
  | some filter =>
    dsimp only
    split
    · rw [Visit.ensures_bind, Visit.modifyLedger, Visit.ensures_modify, Visit.ensures_pure]
      exact ⟨rfl, .inr rfl, fun _ h => h⟩
    · exact (Visit.ensures_pure _ _ _).2 ⟨rfl, .inl rfl, fun _ h => h⟩

/-- What solves the bodies of callees solves them as runs of their own. -/
theorem run_deeperIn {solve : Context V → Run V (Solution V)} (h : A.deeperIn ctx = some solve) :
    ctx.callStack.length < ctx.config.calls.maxCallChain.toNat ∧
      ∀ call callee s, solve (A.calleeContext ctx call callee s) = A.solve (A.calleeContext ctx call callee s) := by
  unfold deeperIn at h
  split at h
  · cases h
  · rename_i depth room
    cases h
    refine ⟨by omega, fun call callee s => ?_⟩
    have shorter : ctx.config.calls.maxCallChain.toNat - (ctx.callStack.length + 1) = depth := by omega
    simp [Analysis.solve, calleeContext, Context.forCallee, shorter]

/-- The solution of a callee is on file, or it is that of a run over its body and is filed then. -/
theorem calleeSolution_files {P : Solution V → Prop} {call : Call V} {callee : Graph} {solve : Context V → Run V (Solution V)}
    {m : Machine V} (files : m.ledger.Files P)
    (run : ∀ claimed, (A.filingAt ctx call callee m.state).find? m.ledger = none →
      m.ledger.reserve? (UInt64.ofNat callee.operationCount) ctx.config.calls.maxNodes = .ok (some claimed) →
      claimed.Files P → ∀ sol after, (solve (A.calleeContext ctx call callee m.state)).run claimed = (.ok sol, after) →
        P sol ∧ after.Files P) :
    Visit.Ensures (A.calleeSolution? ctx solve call callee (ctx.config.calls.handling == .inContext)) m fun found m' =>
      m'.ledger.Files P ∧ ∀ s ∈ found, P s := by
  intro found m' hrun
  rw [run_calleeSolution] at hrun
  split at hrun
  · rename_i sol filed
    cases hrun
    exact ⟨files, fun s hs => Option.some.inj hs ▸ Filing.of_find? files filed⟩
  · rename_i unfiled
    split at hrun
    · cases hrun
    · cases hrun
      exact ⟨files, fun s hs => by cases hs⟩
    · rename_i claimed claims
      have filed : claimed.Files P := by
        rw [Ledger.eq_of_reserve? claims]
        exact files
      split at hrun
      · rename_i sol after solved
        cases hrun
        obtain ⟨good, filed'⟩ := run claimed unfiled claims filed sol after solved
        exact ⟨Filing.files_store filed' good, fun s hs => Option.some.inj hs ▸ good⟩
      · cases hrun

/-- A call is answered by a solution on file, or by that of the run which begins at its turn. -/
theorem answers_of_begun {P : Solution V → Prop} {t : Visit.Turn V}
    (run : ∀ r ∈ A.begun asks ctx t, ∀ sol after, r.2.Files P → (A.solve r.1).run r.2 = (.ok sol, after) →
      P sol ∧ after.Files P) : A.Answers asks P ctx t := by
  intro call turn asked files
  have nothing {m : Machine V} (files : m.ledger.Files P) :
      Visit.Ensures (pure none : Visit V (Option (Solution V))) m fun found m => m.ledger.Files P ∧ ∀ s ∈ found, P s :=
    (Visit.ensures_pure _ _ _).2 ⟨files, fun s hs => by cases hs⟩
  unfold answer
  split
  · exact nothing files
  · rename_i handling
    rw [Visit.ensures_bind]
    refine (ensures_accepts _ _).mono fun accepted m₁ heard => ?_
    obtain ⟨rfl, ledger, kept⟩ := heard
    cases admits : ctx.admits call.method with
    | false => simpa using nothing (kept P files)
    | true =>
      rw [if_neg (by simp)]
      split
      · rename_i solve callee away deeper body
        obtain ⟨room, solves⟩ := run_deeperIn deeper
        rw [Visit.ensures_bind, Visit.ensures_checkCancelled]
        -- The work was not cancelled, so the filter has left the machine alone.
        intro clean
        obtain rfl : m₁ = t.machine := ledger.resolve_right (by simp [clean])
        have follows : ctx.mayFollow call.method = true := by
          simp [Context.mayFollow, handling, admits, away, room]
        refine calleeSolution_files files fun claimed unfiled claims filed sol after solved => ?_
        have begins : A.begun asks ctx t = some (A.calleeContext ctx call callee t.machine.state, claimed) := by
          simp [begun, turn, body, asked, follows, unfiled, claims]
        rw [solves] at solved
        exact run _ begins sol after filed solved
      · exact nothing (kept P files)

/-- A run begins others in contexts whose chain of calls is longer. -/
theorem eq_of_begun {t : Visit.Turn V} {r : Context V × Ledger V} (h : r ∈ A.begun asks ctx t) :
    r.1.config = ctx.config ∧ r.1.callStack.length = ctx.callStack.length + 1 ∧
      ctx.callStack.length < ctx.config.calls.maxCallChain.toNat := by
  simp only [begun, Option.mem_def, Option.bind_eq_bind, Option.bind_eq_some_iff] at h
  obtain ⟨call, -, callee, -, h⟩ := h
  split at h
  · rename_i follows
    simp only [Context.mayFollow, Bool.and_eq_true, decide_eq_true_eq] at follows
    split at h
    · cases h
      exact ⟨rfl, by simp [calleeContext, Context.forCallee], follows.2.2⟩
    · cases h
  · cases h

/-- What runs establish of their solutions, if their calls are answered by solutions of that kind, holds of the solution of
a run if all the runs that it causes are good. The induction is on how far the chain of calls may grow. -/
theorem of_runs {P : Solution V → Prop} {G : Context V → Ledger V → Prop}
    (body : ∀ {ctx ledger sol ledger'}, G ctx ledger → ledger.Files P →
      (∀ t ∈ A.course ctx ledger, A.Answers asks P ctx t) → (A.solve ctx).run ledger = (.ok sol, ledger') →
        P sol ∧ ledger'.Files P)
    {ledger ledger' : Ledger V} {sol : Solution V} (good : ∀ r ∈ A.runs asks ctx ledger, G r.1 r.2) (files : ledger.Files P)
    (run : (A.solve ctx).run ledger = (.ok sol, ledger')) : P sol ∧ ledger'.Files P := by
  unfold runs at good
  generalize hdepth : ctx.config.calls.maxCallChain.toNat - ctx.callStack.length = depth at good
  induction depth generalizing ctx ledger sol ledger' with
  | zero =>
    have itself : G ctx ledger := good (ctx, ledger) (by simp [runsWithin])
    refine body itself files (fun t _ => ?_) run
    refine answers_of_begun fun r begins => ?_
    obtain ⟨-, -, room⟩ := eq_of_begun begins
    omega
  | succ depth ih =>
    have itself : G ctx ledger := good (ctx, ledger) (by simp [runsWithin])
    refine body itself files (fun t turn => ?_) run
    refine answers_of_begun fun r begins sol after files' run' => ?_
    obtain ⟨config, longer, room⟩ := eq_of_begun begins
    have shorter : r.1.config.calls.maxCallChain.toNat - r.1.callStack.length = depth := by
      rw [config, longer]
      omega
    refine ih files' run' shorter fun r' caused => good r' ?_
    rw [runsWithin]
    exact List.mem_cons_of_mem _ (List.mem_flatMap.2 ⟨r, List.mem_filterMap.2 ⟨t, turn, begins⟩, caused⟩)

end Analysis

end Dataflow
