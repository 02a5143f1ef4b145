import Dataflow.Proofs.Calls.Standalone

/-!
# Summaries

One summary of a method serves all its calls, whatever the run knew that made it.

## The notions

* `Analysis.solveVetted`: the solver, but it fails where the summary of a method of a setting would depend on more than
  the setting.
* `Setting.Right`: the summaries on file of methods of the setting are what these come to on their own.

## What is proved

Runs that the setting suits file what is right (`Setting.Suits.right`). The reason is that a run over a method of
the setting does what the method does on its own (`Setting.plainly_solve`), where each callee is taken from the file
or solved.
-/

namespace Dataflow

variable {V : Type} [DecidableEq V]

/-! ### Vetting -/

namespace Setting

variable (S : Setting)

/-- The method, if it belongs to the setting. -/
def member? (method : Symbol) : Option Symbol := if S.belongs method then some method else none

/-- What other analyses found out is as the setting says, if the run is over a method of the setting. -/
def finds (member : Option Symbol) (ctx : Context V) : Bool :=
  match member with
  | some method => decide (ctx.findings = S.findings method)
  | none => true

/-- A call of a body would be left opaque, as the callee is under way or the chain of calls may not grow, or the callee does not
belong to the setting. -/
def cuts (depth : Nat) (ctx : Context V) (method : Symbol) : Bool :=
  ctx.admits method && (ctx.bodies method).isSome && (ctx.isOnStack method || depth == 0 || !S.belongs method)

end Setting

namespace Analysis

variable (A : Analysis V) (S : Setting) (e : Failure)

/-- Solves a body, over a method of the setting or not, whose chain of calls may grow by `depth`. It is a failure if operations do not fit
into the budget. Over a method of the setting, it is a failure if other findings turn up, or if a call is cut off. -/
def solveVetted : (depth : Nat) → (member : Option Symbol) → Context V → Run V (Solution V)
  | 0, member, ctx =>
    if S.finds member ctx then
      A.solveBody ctx fun call =>
        if member.isSome && S.cuts 0 ctx call.method then throw e else A.handleCallBy ctx none call
    else throw e
  | depth + 1, member, ctx =>
    if S.finds member ctx then
      A.solveBody ctx fun call =>
        if member.isSome && S.cuts (depth + 1) ctx call.method then throw e
        else
          A.handleCallBy ctx
            (some fun call => A.strictSolution? e (solveVetted depth (S.member? call.method)) ctx call) call
    else throw e

/-- Solves a body that does not count as one of the setting. -/
def vet (ctx : Context V) : Run V (Solution V) :=
  A.solveVetted S e (ctx.config.calls.maxCallChain.toNat - ctx.callStack.length) none ctx

variable {A S e} {ctx : Context V}

/-- How the solver finds solutions of callees. -/
def vettedSolution? (A : Analysis V) (S : Setting) (e : Failure) (depth : Nat) (ctx : Context V) :
    Option (Call V → Graph → Visit V (Option (Solution V))) :=
  match depth with
  | 0 => none
  | depth + 1 => some fun call => A.strictSolution? e (A.solveVetted S e depth (S.member? call.method)) ctx call

theorem solveVetted_eq (depth : Nat) (member : Option Symbol) (ctx : Context V) :
    A.solveVetted S e depth member ctx =
      if S.finds member ctx then
        A.solveBody ctx fun call =>
          if member.isSome && S.cuts depth ctx call.method then throw e
          else A.handleCallBy ctx (A.vettedSolution? S e depth ctx) call
      else throw e := by
  cases depth <;> rfl

/-- Vetting makes a difference only where it fails: by induction on how much the chain of calls may grow. -/
theorem solveWithin_vetted (H : A.Apart) (depth : Nat) (member : Option Symbol) (ctx : Context V) :
    (Congruence.unless V e).Rel (Visit.ofRun (A.solveWithin depth ctx))
      (Visit.ofRun (A.solveVetted S e depth member ctx)) := by
  have accepts (ctx : Context V) (method : Symbol) :
      (Congruence.unless V e).Rel (accepts ctx method) (accepts ctx method) := fun _ => .inr rfl
  induction depth generalizing member ctx with
  | zero =>
    rw [solveWithin, solveVetted_eq, handleCall_eq]
    split
    · refine solveBody_strict H fun call => ?_
      split
      · exact fun _ => .inl rfl
      · exact (Congruence.unless V e).handleCallBy (accepts ctx _) .none
    · exact fun _ => .inl rfl
  | succ depth ih =>
    rw [solveWithin, solveVetted_eq, handleCall_eq]
    split
    · refine solveBody_strict H fun call => ?_
      split
      · exact fun _ => .inl rfl
      · refine (Congruence.unless V e).handleCallBy (accepts ctx _) (.some fun callee _ _ _ => ?_)
        exact (Congruence.unless V e).bind (Congruence.unless V e).checkCancelled fun _ => calleeSolution_strict (ih _)
    · exact fun _ => .inl rfl

theorem vet_eq (H : A.Apart) {l : Ledger V} (h : ((A.vet S e ctx).run l).1 ≠ .error e) :
    (A.vet S e ctx).run l = (A.solve ctx).run l := by
  rcases solveWithin_vetted (S := S) H (ctx.config.calls.maxCallChain.toNat - ctx.callStack.length) none ctx (startOf ctx l)
    with fails | same
  · exact absurd fails h
  · exact run_of_ofRun same

end Analysis

namespace Setting

/-! ### What is on file -/

variable (A : Analysis V) (S : Setting)

/-- The summaries of methods of the setting are what these come to on their own. If that cancels the work, then it was cancelled. -/
def Right (l : Ledger V) : Prop :=
  ∀ method sol, S.belongs method = true → l.summary? method = some sol →
    ∃ cancels, (cancels = true → l.cancelled = true) ∧ S.Sums A method ⟨sol, cancels⟩

variable {A S}

theorem right_start (cancelled : Bool) : S.Right A (Ledger.start cancelled) := fun _ _ _ h => by cases h

/-- What is right stays so when the work is cancelled. -/
theorem Right.withCancelled {l : Ledger V} (h : S.Right A l) : S.Right A (l.withCancelled true) := by
  intro method sol belongs hsol
  obtain ⟨cancels, -, sums⟩ := h method sol belongs hsol
  exact ⟨cancels, fun _ => rfl, sums⟩

/-- Claiming operations files nothing. -/
theorem Right.of_reserve? {l l' : Ledger V} (h : S.Right A l) {nodes budget : UInt64}
    (claimed : l.reserve? nodes budget = .ok (some l')) : S.Right A l' := by
  rw [Ledger.eq_of_reserve? claimed]
  exact h

/-- A new summary is filed that is what the method comes to on its own. -/
theorem Right.storeSummary {l : Ledger V} {method : Symbol} {sol : Solution V} (h : S.Right A l)
    (new : S.belongs method = true → S.Sums A method ⟨sol, l.cancelled⟩) : S.Right A (l.storeSummary method sol) := by
  intro other sol' belongs hsol
  have found : (if Filing.summary other = (Filing.summary method : Filing V) then some sol else l.summary? other) = some sol' :=
    (Filing.find?_store _ _ _ _).symm.trans hsol
  split at found
  · rename_i same
    injection same with same
    subst same
    obtain rfl := Option.some.inj found
    exact ⟨l.cancelled, id, new belongs⟩
  · exact h other sol' belongs found

/-- All that is right agrees. -/
theorem Right.unique (H : A.Apart) {l l' : Ledger V} (h : S.Right A l) (h' : S.Right A l') {method : Symbol}
    (belongs : S.belongs method = true) {sol sol' : Solution V} (hsol : l.summary? method = some sol)
    (hsol' : l'.summary? method = some sol') : sol = sol' := by
  obtain ⟨cancels, -, sums⟩ := h method sol belongs hsol
  obtain ⟨cancels', -, sums'⟩ := h' method sol' belongs hsol'
  exact congrArg Summary.solution (sums.unique H sums')

/-! ### Visits that file what is right -/

variable (A S) in
/-- What the visits file is right. -/
def rightly : Congruence V := .keeping (S.Right A)

variable (A S) in
/-- What the first visit files is right, and if it succeeds, then the second one repeats with any ledger what it did. -/
def plainly : Congruence V := .replaying (S.Right A) (.any V)

/-! ### Calls -/

section Calls

variable {ctx : Context V} {call : Call V} {callee : Graph} {solve : Context V → Run V (Solution V)} {e : Failure}
  {m : Machine V}

variable (A solve ctx call callee m) in
/-- How the search for the solution of a callee ends. -/
inductive Searched : Except Failure (Option (Solution V)) × Machine V → Prop where
  /-- A solution is on file. -/
  | filed {sol : Solution V} (found : (A.filingAt ctx call callee m.state).find? m.ledger = some sol) :
    Searched (.ok (some sol), m)
  /-- The operations of the callee cannot be claimed. -/
  | refused (e : Failure) : Searched (.error e, m)
  /-- The run over the callee fails. -/
  | failed {nodes budget : UInt64} {ledger after : Ledger V} {e : Failure}
    (claimed : m.ledger.reserve? nodes budget = .ok (some ledger))
    (run : ExceptT.run (solve (A.calleeContext ctx call callee m.state)) ledger = (.error e, after)) :
    Searched (.error e, { m with ledger := after })
  /-- The run over the callee succeeds. -/
  | solved {nodes budget : UInt64} {ledger after : Ledger V} {sol : Solution V}
    (claimed : m.ledger.reserve? nodes budget = .ok (some ledger))
    (run : ExceptT.run (solve (A.calleeContext ctx call callee m.state)) ledger = (.ok sol, after)) :
    Searched (.ok (some sol), { m with ledger := (A.filingAt ctx call callee m.state).store sol after })

variable (A solve ctx call callee m e) in
theorem searched_strictSolution :
    Searched A ctx call callee solve m (ExceptT.run (A.strictSolution? e solve ctx call callee) m) := by
  rw [Analysis.run_strictSolution]
  cases hfound : (A.filingAt ctx call callee m.state).find? m.ledger with
  | some sol => exact .filed hfound
  | none =>
    rcases hreserve : m.ledger.reserve? (UInt64.ofNat callee.operationCount) ctx.config.calls.maxNodes with v | _ | ledger
    · exact .refused _
    · exact .refused _
    · dsimp only
      rcases hr : ExceptT.run (solve (A.calleeContext ctx call callee m.state)) ledger with ⟨f | sol, after⟩
      · exact .failed hreserve hr
      · exact .solved hreserve hr

variable (summaries : ctx.config.calls.handling = .summaries)

include summaries in
omit [DecidableEq V] in
theorem filingAt_eq (s : State V) : A.filingAt ctx call callee s = .summary call.method := by
  unfold Analysis.filingAt
  rw [summaries]
  rfl

include summaries in
/-- The search for the summary of another method files what is right, if the run over that method does. -/
theorem solution_rightly (foreign : ¬ S.belongs call.method = true)
    (solved : ∀ s, (rightly A S).Rel (Visit.ofRun (solve (A.calleeContext ctx call callee s)))
      (Visit.ofRun (solve (A.calleeContext ctx call callee s)))) :
    (rightly A S).Rel (A.strictSolution? e solve ctx call callee) (A.strictSolution? e solve ctx call callee) := by
  intro m right
  have after {ledger : Ledger V} (h : S.Right A ledger) :
      S.Right A (ExceptT.run (solve (A.calleeContext ctx call callee m.state)) ledger).2 :=
    solved m.state { m with ledger } h
  have searched := searched_strictSolution A ctx call callee solve e m
  generalize ExceptT.run (A.strictSolution? e solve ctx call callee) m = r at searched ⊢
  cases searched with
  | filed found => exact right
  | refused f => exact right
  | failed claimed run =>
    have right' := after (right.of_reserve? claimed)
    rwa [run] at right'
  | solved claimed run =>
    have right' := after (right.of_reserve? claimed)
    rw [run] at right'
    rw [filingAt_eq summaries]
    exact right'.storeSummary fun belongs => absurd belongs foreign

variable (H : A.Apart) (body : S.bodies call.method = some callee)
  (solved : ∀ s, (plainly A S).Rel (Visit.ofRun (solve (A.calleeContext ctx call callee s)))
    (Visit.ofRun (A.solveGiven (S.known A) (S.context call.method callee))))
include H body solved

/-- A run over the callee comes to what the callee comes to on its own. -/
theorem sums_of_run {s : State V} {ledger after : Ledger V} {sol : Solution V} (right : S.Right A ledger)
    (running : ledger.cancelled = false)
    (run : ExceptT.run (solve (A.calleeContext ctx call callee s)) ledger = (.ok sol, after)) :
    S.Sums A call.method ⟨sol, after.cancelled⟩ := by
  refine .intro body (S.known A) (fun _ _ => (known_eq_some H).1) fun l hl => ?_
  have ran : ExceptT.run (Visit.ofRun (solve (A.calleeContext ctx call callee s))) (Analysis.startOf ctx ledger) =
      (.ok sol, { Analysis.startOf ctx ledger with ledger := after }) := by
    rw [Analysis.run_ofRun]
    exact congrArg (fun r => (r.1, { Analysis.startOf ctx ledger with ledger := r.2 })) run
  have again := ((solved s (Analysis.startOf ctx ledger) right).repeats sol _ ran).again l trivial (hl.trans running.symm)
  exact Analysis.run_of_ofRun again

include summaries in
/-- The summary of a method of the setting is what it comes to on its own. -/
theorem solution_plainly (belongs : S.belongs call.method = true) :
    (plainly A S).Rel (Visit.checkCancelled >>= fun _ => A.strictSolution? e solve ctx call callee)
      (Visit.checkCancelled >>= fun _ => Analysis.givenSolution? (S.known A) call) := by
  refine Congruence.replaying_of_running fun m right running => ?_
  -- what the callee comes to is given with any ledger
  have given {o : Summary V} (sums : S.Sums A call.method o) (l : Ledger V) := Analysis.run_givenSolution
    ((known_eq_some H).2 sums) { m with ledger := l }
  have after {ledger : Ledger V} (h : S.Right A ledger) :
      S.Right A (ExceptT.run (solve (A.calleeContext ctx call callee m.state)) ledger).2 :=
    (solved m.state { m with ledger } h).keeps
  have searched := searched_strictSolution A ctx call callee solve e m
  generalize hr : ExceptT.run (A.strictSolution? e solve ctx call callee) m = r at searched
  cases searched with
  | filed found =>
    rw [filingAt_eq summaries] at found
    obtain ⟨cancels, hcancels, sums⟩ := right call.method _ belongs found
    have kept : cancels = false := Bool.eq_false_iff.2 fun h => by
      rw [hcancels h] at running
      cases running
    refine .of_ok hr right ⟨trivial, fun l _ hl => ?_⟩
    rw [given sums, hl, kept, Bool.or_false]
  | refused f => exact .of_error hr right
  | failed claimed run =>
    have right' := after (right.of_reserve? claimed)
    rw [run] at right'
    exact .of_error hr right'
  | solved claimed run =>
    have right' := after (right.of_reserve? claimed)
    rw [run] at right'
    have sums := sums_of_run H body solved (right.of_reserve? claimed)
      ((Ledger.cancelled_of_reserve? claimed).trans running) run
    rw [filingAt_eq summaries] at hr
    refine .of_ok hr (right'.storeSummary fun _ => sums) ⟨trivial, fun l _ hl => ?_⟩
    rw [given sums, Filing.cancelled_store, hl, running, Bool.false_or]

end Calls

/-! ### Bodies -/

theorem accepts_plainly (ctx : Context V) (method : Symbol) :
    (plainly A S).Rel (Analysis.accepts ctx method) (Analysis.accepts ctx method) :=
  Congruence.replaying_accepts (fun _ => Right.withCancelled) ctx method

theorem accepts_rightly (ctx : Context V) (method : Symbol) :
    (rightly A S).Rel (Analysis.accepts ctx method) (Analysis.accepts ctx method) :=
  fun m right => (accepts_plainly ctx method m right).keeps

/-! ### Runs -/

/-- The run is one of the program of the setting. -/
structure Hosts (S : Setting) (ctx : Context V) : Prop where
  /-- The bodies. -/
  bodies : ctx.bodies = S.bodies
  /-- How the analysis is to be run. -/
  config : ctx.config = S.config

omit [DecidableEq V] in
theorem Hosts.calleeContext {ctx : Context V} (h : S.Hosts ctx) (A : Analysis V) (call : Call V) (callee : Graph) (s : State V) :
    S.Hosts (A.calleeContext ctx call callee s) := ⟨h.bodies, h.config⟩

omit [DecidableEq V] in
/-- A call that is not cut off is followed within the setting. -/
theorem follows_of_not_cuts {ctx : Context V} {depth : Nat} {method : Symbol} (h : ¬ S.cuts depth ctx method = true)
    (admitted : ctx.admits method = true) (body : (ctx.bodies method).isSome = true) :
    ctx.isOnStack method = false ∧ (∃ rest, depth = rest + 1) ∧ S.belongs method = true := by
  unfold cuts at h
  rw [admitted, body] at h
  simp only [Bool.true_and, Bool.or_eq_true, Bool.not_eq_true', beq_iff_eq, not_or] at h
  obtain ⟨⟨away, room⟩, belongs⟩ := h
  exact ⟨by simpa using away, Nat.exists_eq_succ_of_ne_zero room, by simpa using belongs⟩

theorem member?_of_belongs {method : Symbol} (h : S.belongs method = true) : S.member? method = some method := if_pos h

end Setting

/-- What the analysis does in the bodies of a setting does not depend on the chain of calls that led there. -/
def Analysis.IgnoresCallers (A : Analysis V) (S : Setting) : Prop :=
  ∃ P : Operation → Prop, (∀ callStack, A.Ignores (fun ctx => { ctx with callStack }) P) ∧
    ∀ method g, S.belongs method = true → S.bodies method = some g → ∀ op ∈ Operation.subtrees g.operations, P op

namespace Setting

variable {A : Analysis V} {S : Setting} {ctx : Context V} {e : Failure} {depth : Nat} (H : A.Apart)
  (ignores : A.IgnoresCallers S) (summaries : S.config.calls.handling = .summaries)
include H ignores

omit H in
/-- A run over a method on its own is a run that knows of callers. -/
theorem solveGiven_context {method : Symbol} {known : Symbol → Option (Summary V)} (hosts : S.Hosts ctx)
    (belongs : S.belongs method = true) (body : S.bodies method = some ctx.graph) (entry : ctx.entry = none)
    (found : ctx.findings = S.findings method) :
    A.solveGiven known (S.context method ctx.graph) =
      A.solveBody ctx (A.handleCallBy (S.context method ctx.graph) (some fun call _ => Analysis.givenSolution? known call)) := by
  obtain ⟨P, ignores, all⟩ := ignores
  have context : S.context method ctx.graph = { ctx with callStack := [] } := by
    obtain ⟨pointsTo, copies⟩ := Prod.mk.inj found
    unfold Setting.context
    rw [← pointsTo, ← copies, ← entry, ← hosts.bodies, ← hosts.config]
  unfold Analysis.solveGiven
  rewrite [context]
  symm
  refine Analysis.solveBody_congr ⟨rfl, rfl, rfl, rfl⟩ fun op hop seen => ?_
  exact ((ignores []).own (all method _ belongs body op hop) seen).symm

include summaries

/-- A run over a method of the setting does what the method does on its own: by induction on how much the chain of calls may
grow. -/
theorem plainly_solve {method : Symbol} (hosts : S.Hosts ctx) (belongs : S.belongs method = true)
    (body : S.bodies method = some ctx.graph) (entry : ctx.entry = none) :
    (plainly A S).Rel (Visit.ofRun (A.solveVetted S e depth (some method) ctx))
      (Visit.ofRun (A.solveGiven (S.known A) (S.context method ctx.graph))) := by
  have fails {α : Type} (y : Visit V α) : (plainly A S).Rel (throw e) y := fun m right => .of_error rfl right
  induction depth using Nat.strongRecOn generalizing method ctx with
  | ind depth ih =>
    have handling : ctx.config.calls.handling = .summaries := hosts.config ▸ summaries
    rw [Analysis.solveVetted_eq]
    split
    swap
    · exact fails _
    rename_i finds
    rw [solveGiven_context ignores hosts belongs body entry (of_decide_eq_true finds)]
    refine Congruence.replaying_solveBody H fun call hcall => ?_
    split
    · exact fails _
    rename_i uncut
    refine (plainly A S).handleCallBy_of_found hosts.config.symm ?_ fun admitted => ?_
    · have same : Analysis.accepts (S.context method ctx.graph : Context V) = Analysis.accepts ctx := by
        unfold Analysis.accepts Setting.context
        rw [hosts.config]
      rw [same]
      exact accepts_plainly ctx _
    unfold Analysis.found?
    have bodies : (S.context method ctx.graph : Context V).bodies = ctx.bodies := hosts.bodies.symm
    rw [bodies]
    cases hbody : ctx.bodies call.method with
    | none => simp
    | some callee =>
      obtain ⟨away, ⟨rest, rfl⟩, member⟩ := follows_of_not_cuts uncut admitted (by rw [hbody]; rfl)
      have away' : (S.context method ctx.graph : Context V).isOnStack call.method = false :=
        (Bool.or_false _).trans (Bool.or_eq_false_iff.1 away).1
      have body : S.bodies call.method = some callee := hosts.bodies ▸ hbody
      simp only [away, away']
      refine .some (solution_plainly handling H body (fun s => ?_) member)
      rw [member?_of_belongs member]
      refine ih rest (Nat.lt_succ_self rest) (hosts.calleeContext A call callee s) member body ?_
      rw [Analysis.calleeContext, if_neg (by rw [handling]; decide)]
      rfl

/-- What is filed of methods of the setting is right: by induction on how much the chain of calls may grow. -/
theorem rightly_solve (hosts : S.Hosts ctx) :
    (rightly A S).Rel (Visit.ofRun (A.solveVetted S e depth none ctx)) (Visit.ofRun (A.solveVetted S e depth none ctx)) := by
  induction depth generalizing ctx with
  | zero =>
    exact fun m => Congruence.keeping_solveBody H fun call _ => (rightly A S).handleCallBy (accepts_rightly ctx _) .none
  | succ depth ih =>
    have handling : ctx.config.calls.handling = .summaries := hosts.config ▸ summaries
    refine fun m => Congruence.keeping_solveBody H fun call _ => ?_
    refine (rightly A S).handleCallBy (accepts_rightly ctx _) (.some fun callee admitted away hbody => ?_)
    have body : S.bodies call.method = some callee := hosts.bodies ▸ hbody
    unfold member?
    split
    · -- a method of the setting
      rename_i belongs
      refine fun m right => (solution_plainly handling H body (fun s => ?_) belongs m right).keeps
      refine plainly_solve H ignores summaries (hosts.calleeContext A call callee s) belongs body ?_
      rw [Analysis.calleeContext, if_neg (by rw [handling]; decide)]
      rfl
    · -- another method, of which the summary does not matter
      rename_i foreign
      refine (rightly A S).bind (rightly A S).checkCancelled fun _ => ?_
      exact solution_rightly handling foreign fun s => ih (hosts.calleeContext A call callee s)

end Setting

/-! ### Runs that a setting suits -/

/-- The run is one of the program of the setting, and it passes vetting. -/
structure Setting.Suits (S : Setting) (A : Analysis V) (ctx : Context V) (cancelled : Bool) : Prop extends S.Hosts ctx where
  /-- Vetting does not fail. -/
  passes : ∃ e, ((A.vet S e ctx).run (Ledger.start cancelled)).1 ≠ .error e

/-- What a run files is right if the setting suits it. -/
theorem Setting.Suits.right {A : Analysis V} {S : Setting} {ctx : Context V} {cancelled : Bool} (H : A.Apart)
    (ignores : A.IgnoresCallers S) (summaries : S.config.calls.handling = .summaries) (h : S.Suits A ctx cancelled) :
    S.Right A ((A.solve ctx).run (Ledger.start cancelled)).2 := by
  obtain ⟨hosts, e, passes⟩ := h
  rw [← Analysis.vet_eq H passes]
  exact rightly_solve H ignores summaries hosts (Analysis.startOf ctx (Ledger.start cancelled)) (right_start cancelled)

end Dataflow
