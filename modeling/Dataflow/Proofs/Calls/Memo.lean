import Dataflow.Proofs.Calls.Descent
import Dataflow.Proofs.Calls.Replay

/-!
# Solutions that are used again

The solution of a callee is filed, and it serves further calls. Whether it is what an analysis of the callee
for such a call would come to depends on what else that analysis would look at.

## The notions

* `Analysis.solveFresh`: the solver, but a callee is analysed anew where its solution is on file.
* `Analysis.solveStrict`: the solver, but it fails where operations do not fit into the budget.
* `Serving`: which solutions on file are to serve which runs, such that these runs come to the same if
  everything is analysed anew.
* `Serving.Right`: what is on file is what the runs come to that it serves, on any later ledger.

## What is proved

To insist on the budget makes a difference only where it fails (`Analysis.solveStrict_eq`). Among runs that are
served, to analyse callees anew makes no difference, and what they file is right (`Serving.related`). The reason is
that a run comes to the same on any later ledger (`Repeats`): what it would file is there already.
-/

namespace Dataflow

variable {V : Type} [DecidableEq V]

/-! ### Ways to find solutions -/

namespace Analysis

variable (A : Analysis V)

/-- Under what the solution of a callee is filed. -/
def filingAt (ctx : Context V) (call : Call V) (callee : Graph) (s : State V) : Filing V :=
  if ctx.config.calls.handling = .inContext then
    .inContext ⟨call.method, ctx.callSites ++ [call.operation.id], A.calleeEntry call callee s⟩
  else .summary call.method

/-- The context of a callee. -/
def calleeContext (ctx : Context V) (call : Call V) (callee : Graph) (s : State V) : Context V :=
  ctx.forCallee callee call.operation.id
    (if ctx.config.calls.handling = .inContext then some (A.calleeEntry call callee s) else none)

/-- The solution of a callee; it is analysed anew if its solution is on file. -/
def freshSolution? (solve : Context V → Run V (Solution V)) (ctx : Context V) (call : Call V) (callee : Graph) :
    Visit V (Option (Solution V)) := do
  let s ← Visit.state
  if ((A.filingAt ctx call callee s).find? (← get).ledger).isSome then
    return some (← Visit.ofRun (solve (A.calleeContext ctx call callee s)))
  else A.calleeSolution? ctx solve call callee (ctx.config.calls.handling == .inContext)

/-- The solution of a callee; it is a failure if its operations do not fit into the budget. -/
def strictSolution? (e : Failure) (solve : Context V → Run V (Solution V)) (ctx : Context V) (call : Call V)
    (callee : Graph) : Visit V (Option (Solution V)) := do
  match ← A.calleeSolution? ctx solve call callee (ctx.config.calls.handling == .inContext) with
  | some s => return some s
  | none => throw e

/-- Solves a body whose chain of calls may grow by `depth`; the solution of a callee is found in some way from the solver of
shorter chains. -/
def solveWithinVia (find : (Context V → Run V (Solution V)) → Context V → Call V → Graph → Visit V (Option (Solution V))) :
    (depth : Nat) → Context V → Run V (Solution V)
  | 0, ctx => A.solveBody ctx (A.handleCallBy ctx none)
  | depth + 1, ctx => A.solveBody ctx (A.handleCallBy ctx (some (find (solveWithinVia find depth) ctx)))

/-- Solves a body, and each callee anew whose solution is on file. -/
def solveFresh (ctx : Context V) : Run V (Solution V) :=
  A.solveWithinVia A.freshSolution? (ctx.config.calls.maxCallChain.toNat - ctx.callStack.length) ctx

/-- Solves a body, and fails where operations do not fit into the budget. -/
def solveStrict (e : Failure) (ctx : Context V) : Run V (Solution V) :=
  A.solveWithinVia (A.strictSolution? e) (ctx.config.calls.maxCallChain.toNat - ctx.callStack.length) ctx

/-- Operations always fit into the budget: a solver that would fail otherwise does not. -/
def NoneRefused (ctx : Context V) (cancelled : Bool) : Prop :=
  ∃ e, ((A.solveStrict e ctx).run (Ledger.start cancelled)).1 ≠ .error e

variable {A} {ctx : Context V} {call : Call V} {callee : Graph} {e : Failure}

/-- What becomes of a machine when the solution of a callee is looked for. -/
theorem run_calleeSolution (solve : Context V → Run V (Solution V)) (m : Machine V) :
    ExceptT.run (A.calleeSolution? ctx solve call callee (ctx.config.calls.handling == .inContext)) m =
      match (A.filingAt ctx call callee m.state).find? m.ledger with
      | some sol => (.ok (some sol), m)
      | none =>
        match m.ledger.reserve? (UInt64.ofNat callee.operationCount) ctx.config.calls.maxNodes with
        | .error v => (.error (.violated v), m)
        | .ok none => (.ok none, m)
        | .ok (some ledger) =>
          match ExceptT.run (solve (A.calleeContext ctx call callee m.state)) ledger with
          | (.ok sol, after) => (.ok (some sol), { m with ledger := (A.filingAt ctx call callee m.state).store sol after })
          | (.error e, after) => (.error e, { m with ledger := after }) := by
  have state : ExceptT.run (Visit.state : Visit V (State V)) m = (.ok m.state, m) := rfl
  unfold calleeSolution? filingAt calleeContext
  by_cases h : ctx.config.calls.handling = .inContext
  · simp only [h, beq_self_eq_true, if_true]
    rw [Visit.run_bind, state]
    exact Accord.run_solution _ _ _ _ m
  · simp only [h, beq_eq_false_iff_ne.2 h, Bool.false_eq_true, if_false]
    exact Accord.run_solution _ _ _ _ m

/-- What becomes of a machine when the solution of a callee is insisted on. -/
theorem run_strictSolution (solve : Context V → Run V (Solution V)) (m : Machine V) :
    ExceptT.run (A.strictSolution? e solve ctx call callee) m =
      match (A.filingAt ctx call callee m.state).find? m.ledger with
      | some sol => (.ok (some sol), m)
      | none =>
        match m.ledger.reserve? (UInt64.ofNat callee.operationCount) ctx.config.calls.maxNodes with
        | .error v => (.error (.violated v), m)
        | .ok none => (.error e, m)
        | .ok (some ledger) =>
          match ExceptT.run (solve (A.calleeContext ctx call callee m.state)) ledger with
          | (.ok sol, after) => (.ok (some sol), { m with ledger := (A.filingAt ctx call callee m.state).store sol after })
          | (.error e, after) => (.error e, { m with ledger := after }) := by
  unfold strictSolution?
  rw [Visit.run_bind, run_calleeSolution]
  cases (A.filingAt ctx call callee m.state).find? m.ledger with
  | some sol => rfl
  | none =>
    rcases m.ledger.reserve? (UInt64.ofNat callee.operationCount) ctx.config.calls.maxNodes with v | _ | ledger
    · rfl
    · rfl
    · dsimp only
      rcases ExceptT.run (solve (A.calleeContext ctx call callee m.state)) ledger with ⟨f | sol, after⟩ <;> rfl

/-- What becomes of a machine when a callee is analysed anew. -/
theorem run_freshSolution (solve : Context V → Run V (Solution V)) (m : Machine V) :
    ExceptT.run (A.freshSolution? solve ctx call callee) m =
      if ((A.filingAt ctx call callee m.state).find? m.ledger).isSome then
        match ExceptT.run (solve (A.calleeContext ctx call callee m.state)) m.ledger with
        | (.ok sol, after) => (.ok (some sol), { m with ledger := after })
        | (.error e, after) => (.error e, { m with ledger := after })
      else ExceptT.run (A.calleeSolution? ctx solve call callee (ctx.config.calls.handling == .inContext)) m := by
  have state : ExceptT.run (Visit.state : Visit V (State V)) m = (.ok m.state, m) := rfl
  have got : ExceptT.run (get : Visit V (Machine V)) m = (.ok m, m) := rfl
  unfold freshSolution?
  rw [Visit.run_bind, state]
  dsimp only
  rw [Visit.run_bind, got]
  dsimp only
  split
  · rw [Visit.run_bind, run_ofRun]
    rcases ExceptT.run (solve (A.calleeContext ctx call callee m.state)) m.ledger with ⟨f | sol, after⟩ <;> rfl
  · rfl

end Analysis

/-! ### Budgets -/

/-- The second visit fails with a certain failure, or does what the first one does. -/
def Congruence.unless (V : Type) (e : Failure) : Congruence V where
  Rel x y := ∀ m, (ExceptT.run y m).1 = .error e ∨ ExceptT.run y m = ExceptT.run x m
  apart _ _ := .inr rfl
  bind hx hf m := by
    rcases hx m with fails | same
    · exact .inl (Visit.run_bind_error fails)
    · rw [Visit.run_bind, Visit.run_bind, same]
      split
      · exact hf _ _
      · exact .inr rfl
  checkCancelled _ := .inr rfl

namespace Analysis

variable {A : Analysis V} {ctx : Context V} {e : Failure} (H : A.Apart)
include H

theorem solveBody_strict {usual usual' : Call V → Visit V V}
    (usuals : ∀ call, (Congruence.unless V e).Rel (usual call) (usual' call)) :
    (Congruence.unless V e).Rel (Visit.ofRun (A.solveBody ctx usual)) (Visit.ofRun (A.solveBody ctx usual')) := by
  intro m
  rw [run_ofRun, run_ofRun, run_solveBody, run_solveBody]
  rcases (Congruence.unless V e).settleBody H (fun call _ => usuals call) (startOf ctx m.ledger) with fails | same
  · left
    rcases hr : ExceptT.run (A.settleBody ctx usual') (startOf ctx m.ledger) with ⟨f | p, m'⟩
    · rw [hr] at fails
      exact congrArg _ (Except.error.inj fails)
    · rw [hr] at fails
      cases fails
  · rw [same]
    exact .inr rfl

omit H [DecidableEq V] in
/-- The solution of a callee is found alike if the callee is solved alike. -/
theorem solution_strict {filed : Ledger V → Option (Solution V)} {file : Solution V → Ledger V → Ledger V} {callee : Graph}
    {r r' : Run V (Solution V)} (h : (Congruence.unless V e).Rel (Visit.ofRun r) (Visit.ofRun r')) :
    (Congruence.unless V e).Rel (solution? ctx filed file callee r) (solution? ctx filed file callee r') := by
  have self {α : Type} (x : Visit V α) : (Congruence.unless V e).Rel x x := fun _ => .inr rfl
  refine (Congruence.unless V e).bind (self _) fun m => ?_
  dsimp only
  cases filed m.ledger with
  | some sol => exact self _
  | none =>
    refine (Congruence.unless V e).bind (self _) fun reserved => ?_
    cases reserved with
    | none => exact self _
    | some ledger =>
      exact (Congruence.unless V e).bind (self _) fun _ => (Congruence.unless V e).bind h fun _ => self _

omit H in
/-- To insist on the solution of a callee makes a difference only where that fails. -/
theorem calleeSolution_strict {solve solve' : Context V → Run V (Solution V)} {call : Call V} {callee : Graph}
    (h : ∀ ctx, (Congruence.unless V e).Rel (Visit.ofRun (solve ctx)) (Visit.ofRun (solve' ctx))) :
    (Congruence.unless V e).Rel (A.calleeSolution? ctx solve call callee (ctx.config.calls.handling == .inContext))
      (A.strictSolution? e solve' ctx call callee) := by
  have self {α : Type} (x : Visit V α) : (Congruence.unless V e).Rel x x := fun _ => .inr rfl
  have found : (Congruence.unless V e).Rel
      (A.calleeSolution? ctx solve call callee (ctx.config.calls.handling == .inContext))
      (A.calleeSolution? ctx solve' call callee (ctx.config.calls.handling == .inContext)) := by
    unfold calleeSolution?
    dsimp only
    split
    · exact (Congruence.unless V e).bind (self _) fun _ => solution_strict (h _)
    · exact solution_strict (h _)
  rw [← bind_pure (A.calleeSolution? ctx solve call callee _)]
  refine (Congruence.unless V e).bind found fun sol => ?_
  cases sol with
  | some sol => exact self _
  | none => exact fun _ => .inl rfl

/-- The same for whole runs: by induction on how much the chain of calls may grow. -/
theorem solveWithin_strict (depth : Nat) (ctx : Context V) :
    (Congruence.unless V e).Rel (Visit.ofRun (A.solveWithin depth ctx))
      (Visit.ofRun (A.solveWithinVia (A.strictSolution? e) depth ctx)) := by
  have accepts (ctx : Context V) (method : Symbol) :
      (Congruence.unless V e).Rel (accepts ctx method) (accepts ctx method) := fun _ => .inr rfl
  induction depth generalizing ctx with
  | zero =>
    rw [solveWithin, solveWithinVia, handleCall_eq]
    exact solveBody_strict H fun call => (Congruence.unless V e).handleCallBy (accepts ctx _) .none
  | succ depth ih =>
    rw [solveWithin, solveWithinVia, handleCall_eq]
    refine solveBody_strict H fun call => (Congruence.unless V e).handleCallBy (accepts ctx _) (.some fun callee _ _ _ => ?_)
    exact (Congruence.unless V e).bind (Congruence.unless V e).checkCancelled fun _ => calleeSolution_strict ih

/-- A solver that insists on solutions does the same unless it fails for that. -/
theorem solveStrict_eq {l : Ledger V} (h : ((A.solveStrict e ctx).run l).1 ≠ .error e) :
    (A.solveStrict e ctx).run l = (A.solve ctx).run l := by
  rcases solveWithin_strict H (ctx.config.calls.maxCallChain.toNat - ctx.callStack.length) ctx (startOf ctx l) with fails | same
  · exact absurd fails h
  · exact run_of_ofRun same

end Analysis

/-! ### What serves what -/

/-- Which solutions on file serve which runs. -/
structure Serving (A : Analysis V) where
  /-- The runs of which all callees are served, with how much the chain of calls may grow. -/
  Within : Nat → Context V → Prop
  /-- What is filed in some way is to serve a run. -/
  Serves : Filing V → Nat → Context V → Prop
  /-- The solution of a callee is to serve the run over the callee. -/
  follow : ∀ {depth : Nat} {ctx : Context V} {call : Call V} {callee : Graph}, Within (depth + 1) ctx →
    ctx.Follows call callee → ∀ s, Within depth (A.calleeContext ctx call callee s) ∧
      Serves (A.filingAt ctx call callee s) depth (A.calleeContext ctx call callee s)
  /-- Runs that are served alike come to the same if everything is analysed anew. -/
  unique : ∀ {f : Filing V} {depth depth' : Nat} {ctx ctx' : Context V}, Serves f depth ctx → Serves f depth' ctx' →
    ∀ l, ExceptT.run (A.solveWithinVia A.freshSolution? depth ctx) l =
      ExceptT.run (A.solveWithinVia A.freshSolution? depth' ctx') l

@[simp]
theorem Filing.find?_withCancelled (f : Filing V) (l : Ledger V) (cancelled : Bool) :
    f.find? (l.withCancelled cancelled) = f.find? l := by
  cases f <;> rfl

theorem Filing.find?_of_reserve? {f : Filing V} {l l' : Ledger V} {nodes budget : UInt64}
    (h : l.reserve? nodes budget = .ok (some l')) : f.find? l' = f.find? l := by
  rw [Ledger.eq_of_reserve? h]
  cases f <;> rfl

theorem Filing.find?_store (f f' : Filing V) (sol : Solution V) (l : Ledger V) :
    f.find? (f'.store sol l) = if f = f' then some sol else f.find? l := by
  cases f with
  | summary method =>
    cases f' with
    | summary method' =>
      by_cases h : method = method'
      · subst h
        simp [find?, store, Ledger.summary?, Ledger.storeSummary, FinMap.find?_insert_self]
      · simp [find?, store, Ledger.summary?, Ledger.storeSummary, FinMap.find?_insert_ne _ _ h, h]
    | inContext key' => simp [find?, store, Ledger.summary?, Ledger.storeInContext]
  | inContext key =>
    cases f' with
    | summary method' => simp [find?, store, Ledger.inContext?, Ledger.storeSummary]
    | inContext key' =>
      by_cases h : key = key'
      · subst h
        simp [find?, store, Ledger.inContext?, Ledger.storeInContext]
      · simp [find?, store, Ledger.inContext?, Ledger.storeInContext, h, List.lookup_cons, beq_eq_false_iff_ne.2 h]

omit [DecidableEq V] in
theorem Filing.cancelled_store (f : Filing V) (sol : Solution V) (l : Ledger V) : (f.store sol l).cancelled = l.cancelled := by
  cases f <;> rfl

namespace Serving

variable {A : Analysis V} (S : Serving A)

/-- What is on file and serves any run is still on file later. -/
def Later (l l' : Ledger V) : Prop :=
  ∀ f depth ctx sol, S.Serves f depth ctx → f.find? l = some sol → f.find? l' = some sol

/-- What is on file is what the runs that it serves come to later: as long as the work was not cancelled, they
do not cancel it either. -/
def Right (l : Ledger V) : Prop :=
  ∀ f sol, f.find? l = some sol → ∀ depth ctx, S.Serves f depth ctx → ∃ cancelled, (cancelled = true → l.cancelled = true) ∧
    ∀ l', S.Later l l' → l'.cancelled = false →
      ExceptT.run (A.solveWithinVia A.freshSolution? depth ctx) l' = (.ok sol, l'.withCancelled cancelled)

variable {S} {l l' l'' : Ledger V}

theorem Later.refl : S.Later l l := fun _ _ _ _ _ h => h

theorem Later.trans (h : S.Later l l') (h' : S.Later l' l'') : S.Later l l'' :=
  fun f depth ctx sol serves hl => h' f depth ctx sol serves (h f depth ctx sol serves hl)

theorem Later.withCancelled (h : S.Later l l') (cancelled : Bool) : S.Later l (l'.withCancelled cancelled) := by
  intro f depth ctx sol serves hl
  rw [Filing.find?_withCancelled]
  exact h f depth ctx sol serves hl

variable (S) in
/-- A ledger is later if nothing is lost that serves any run. -/
def lateness : Lateness V where
  Later := S.Later
  refl _ := .refl
  trans := .trans
  withCancelled := .withCancelled

/-- Nothing is on file when a run begins. -/
theorem Right.start (cancelled : Bool) : S.Right (Ledger.start cancelled) := by
  intro f sol hf
  cases f with
  | summary method => cases hf
  | inContext key => cases hf

theorem Right.withCancelled (h : S.Right l) (cancelled : Bool) (stays : l.cancelled = true → cancelled = true) :
    S.Right (l.withCancelled cancelled) := by
  intro f sol hf depth ctx serves
  rw [Filing.find?_withCancelled] at hf
  obtain ⟨c, hc, later⟩ := h f sol hf depth ctx serves
  refine ⟨c, fun h => stays (hc h), fun l' hl' => later l' fun f depth ctx sol serves hl => ?_⟩
  exact hl' f depth ctx sol serves (by rwa [Filing.find?_withCancelled])

/-- Claiming operations files nothing. -/
theorem Right.of_reserve? (h : S.Right l) {nodes budget : UInt64} (claimed : l.reserve? nodes budget = .ok (some l')) :
    S.Right l' := by
  intro f sol hf depth ctx serves
  rw [Filing.find?_of_reserve? claimed] at hf
  obtain ⟨c, hc, run⟩ := h f sol hf depth ctx serves
  refine ⟨c, Ledger.cancelled_of_reserve? claimed ▸ hc, fun l'' later => run l'' fun f depth ctx sol serves hl => ?_⟩
  exact later f depth ctx sol serves (by rwa [Filing.find?_of_reserve? claimed])

/-- What is on file while the work is running is what the run comes to that it serves. -/
theorem Right.run (h : S.Right l) (running : l.cancelled = false) {f : Filing V} {sol : Solution V} (hf : f.find? l = some sol)
    {depth : Nat} {ctx : Context V} (serves : S.Serves f depth ctx) (later : S.Later l l') (running' : l'.cancelled = false) :
    ExceptT.run (A.solveWithinVia A.freshSolution? depth ctx) l' = (.ok sol, l') := by
  obtain ⟨c, hc, run⟩ := h f sol hf depth ctx serves
  rw [run l' later running', Ledger.withCancelled_self]
  rw [running']
  cases c with
  | false => rfl
  | true => rw [hc rfl] at running; cases running

/-- A new solution is filed that is what the runs come to that it serves. -/
theorem Right.store (h : S.Right l) {f : Filing V} {sol : Solution V}
    (new : ∀ depth ctx, S.Serves f depth ctx → ∀ l', S.Later l l' → l'.cancelled = false →
      ExceptT.run (A.solveWithinVia A.freshSolution? depth ctx) l' = (.ok sol, l'.withCancelled l.cancelled)) :
    S.Later l (f.store sol l) ∧ S.Right (f.store sol l) := by
  have later : S.Later l (f.store sol l) := by
    intro g depth ctx sol' serves hg
    rw [Filing.find?_store]
    split
    · -- a solution is replaced by one that the same run comes to
      rename_i same
      subst same
      obtain ⟨c, -, run⟩ := h g sol' hg depth ctx serves
      have old := run (l.withCancelled false) (Later.refl.withCancelled _) rfl
      rw [new depth ctx serves _ (Later.refl.withCancelled _) rfl] at old
      exact congrArg _ (Except.ok.inj (congrArg (·.1) old))
    · exact hg
  refine ⟨later, fun g sol' hg depth ctx serves => ?_⟩
  rw [Filing.cancelled_store]
  rw [Filing.find?_store] at hg
  split at hg
  · rename_i same
    subst same
    obtain rfl := Option.some.inj hg
    exact ⟨l.cancelled, id, fun l' hl' => new depth ctx serves l' (later.trans hl')⟩
  · obtain ⟨c, hc, run⟩ := h g sol' hg depth ctx serves
    exact ⟨c, hc, fun l' hl' => run l' (later.trans hl')⟩

/-! ### Visits -/

variable {α : Type} {x y : Visit V α} {m m' : Machine V} {e : Failure}

variable (S e) in
/-- The first visit fails with a certain failure, or the second one does the same. What is filed is right, and what is done would
be repeated later. -/
structure Related (x y : Visit V α) (m : Machine V) : Prop extends Replays S.Right S.lateness x y m where
  /-- The second visit does the same. -/
  same : (ExceptT.run x m).1 = .error e ∨ ExceptT.run y m = ExceptT.run x m

variable (S e) in
/-- Visits of machines of which what is on file is right. -/
def visits : Congruence V where
  Rel x y := ∀ m, S.Right m.ledger → S.Related e x y m
  apart hx m right := ⟨(Congruence.replaying S.Right S.lateness).apart hx m right, .inr rfl⟩
  bind := by
    intro α β x y f g hx hf m right
    have replays : (Congruence.replaying S.Right S.lateness).Rel (x >>= f) (y >>= g) :=
      (Congruence.replaying S.Right S.lateness).bind (fun m right => (hx m right).toReplays)
        fun a m right => (hf a m right).toReplays
    refine ⟨replays m right, ?_⟩
    obtain ⟨⟨keeps, -⟩, same⟩ := hx m right
    rw [Visit.run_bind, Visit.run_bind]
    rcases hr : ExceptT.run x m with ⟨failure | a, m'⟩
    · rw [hr] at same
      rcases same with fails | same
      · exact .inl (congrArg _ (Except.error.inj fails))
      · rw [same]
        exact .inr rfl
    · rw [hr] at same keeps
      rw [same.resolve_left (by simp)]
      exact (hf a m' keeps).same
  checkCancelled m right := ⟨(Congruence.replaying S.Right S.lateness).checkCancelled m right, .inr rfl⟩

/-- Visits after a check for cancellation are related if they are while the work is running. -/
theorem rel_of_running (h : ∀ m, S.Right m.ledger → m.ledger.cancelled = false → S.Related e x y m) :
    (S.visits e).Rel (Visit.checkCancelled >>= fun _ => x) (Visit.checkCancelled >>= fun _ => y) := by
  intro m right
  refine ⟨Congruence.replaying_of_running (fun m right running => (h m right running).toReplays) m right, ?_⟩
  cases running : m.ledger.cancelled with
  | true =>
    rw [Visit.run_of_cancelled running, Visit.run_of_cancelled running]
    exact .inr rfl
  | false =>
    rw [Visit.run_of_running running, Visit.run_of_running running]
    exact (h m right running).same

/-! ### Calls -/

section Calls

variable {depth : Nat} {ctx : Context V} {call : Call V} {callee : Graph} {solve : Context V → Run V (Solution V)}

/-- A callee is analysed anew if a solution is on file that is what this comes to. -/
theorem run_fresh_of_find? {sol : Solution V} (hfound : (A.filingAt ctx call callee m.state).find? m.ledger = some sol)
    (run : ExceptT.run (A.solveWithinVia A.freshSolution? depth (A.calleeContext ctx call callee m.state)) m.ledger =
      (.ok sol, m.ledger)) :
    ExceptT.run (A.freshSolution? (A.solveWithinVia A.freshSolution? depth) ctx call callee) m = (.ok (some sol), m) := by
  rw [Analysis.run_freshSolution, hfound, if_pos Option.isSome_some, run]

variable (serves : S.Serves (A.filingAt ctx call callee m.state) depth (A.calleeContext ctx call callee m.state))
  (right : S.Right m.ledger) (running : m.ledger.cancelled = false)
include serves right running

/-- The solution that is on file is what the callee comes to if it is analysed anew. -/
theorem found_related {sol : Solution V} (hfound : (A.filingAt ctx call callee m.state).find? m.ledger = some sol) :
    S.Related e (A.strictSolution? e solve ctx call callee)
      (A.freshSolution? (A.solveWithinVia A.freshSolution? depth) ctx call callee) m := by
  have run : ExceptT.run (A.strictSolution? e solve ctx call callee) m = (.ok (some sol), m) := by
    rw [Analysis.run_strictSolution, hfound]
  -- the same with any later ledger
  have anew (l : Ledger V) (later : S.Later m.ledger l) (hl : l.cancelled = false) :
      ExceptT.run (A.freshSolution? (A.solveWithinVia A.freshSolution? depth) ctx call callee) { m with ledger := l } =
        (.ok (some sol), { m with ledger := l }) :=
    run_fresh_of_find? (m := { m with ledger := l }) (later _ _ _ _ serves hfound)
      (right.run running hfound serves later hl)
  refine ⟨.of_ok run right ⟨Later.refl, fun l hl hc => ?_⟩, .inr (by rw [run]; exact anew m.ledger .refl running)⟩
  rw [anew l hl (hc.trans running), Ledger.withCancelled_self hc]

/-- The solution that a run over the callee comes to is filed. -/
theorem solved_related (hfound : (A.filingAt ctx call callee m.state).find? m.ledger = none)
    (solved : (S.visits e).Rel (Visit.ofRun (solve (A.calleeContext ctx call callee m.state)))
      (Visit.ofRun (A.solveWithinVia A.freshSolution? depth (A.calleeContext ctx call callee m.state)))) :
    S.Related e (A.strictSolution? e solve ctx call callee)
      (A.freshSolution? (A.solveWithinVia A.freshSolution? depth) ctx call callee) m := by
  have run : ExceptT.run (A.strictSolution? e solve ctx call callee) m = _ := Analysis.run_strictSolution solve m
  have anew : ExceptT.run (A.freshSolution? (A.solveWithinVia A.freshSolution? depth) ctx call callee) m = _ :=
    Analysis.run_freshSolution _ m
  rw [Analysis.run_calleeSolution] at anew
  rw [hfound] at run anew
  simp only [Option.isSome_none, Bool.false_eq_true, if_false] at run anew
  cases hreserve : m.ledger.reserve? (UInt64.ofNat callee.operationCount) ctx.config.calls.maxNodes with
  | error v =>
    rw [hreserve] at run anew
    exact ⟨.of_error run right, .inr (anew.trans run.symm)⟩
  | ok reserved =>
    cases reserved with
    | none =>
      rw [hreserve] at run
      exact ⟨.of_error run right, .inl (by rw [run])⟩
    | some ledger =>
      rw [hreserve] at run anew
      dsimp only at run anew
      have cancelled : ledger.cancelled = false := (Ledger.cancelled_of_reserve? hreserve).trans running
      obtain ⟨⟨right', repeats⟩, same⟩ := solved { m with ledger } (right.of_reserve? hreserve)
      have ran := Analysis.run_ofRun (solve (A.calleeContext ctx call callee m.state)) { m with ledger }
      dsimp only at ran
      rcases hr : ExceptT.run (solve (A.calleeContext ctx call callee m.state)) ledger with ⟨failure | sol, after⟩
      · rw [hr] at run ran
        rw [ran] at right' same
        refine ⟨.of_error run right', ?_⟩
        rcases same with fails | same
        · exact .inl (by rw [run]; exact congrArg _ (Except.error.inj fails))
        · have fresh := Analysis.run_of_ofRun same
          exact .inr (by rw [anew, fresh, run])
      · rw [hr] at run ran
        rw [ran] at right' same
        have fresh := Analysis.run_of_ofRun (same.resolve_left (by simp))
        obtain ⟨later, again⟩ := repeats sol _ ran
        have again (l : Ledger V) (hl : S.Later after l) (hc : l.cancelled = false) :
            ExceptT.run (A.solveWithinVia A.freshSolution? depth (A.calleeContext ctx call callee m.state)) l =
              (.ok sol, l.withCancelled after.cancelled) :=
          Analysis.run_of_ofRun (again l hl (hc.trans cancelled.symm))
        obtain ⟨filed, right''⟩ := right'.store fun depth ctx serves' l hl hc =>
          (S.unique serves' serves l).trans (again l hl hc)
        have claimed : S.Later m.ledger ledger := fun f depth ctx sol _ h => by rwa [Filing.find?_of_reserve? hreserve]
        refine ⟨.of_ok run right'' ⟨claimed.trans (Later.trans later filed), fun l hl hc => ?_⟩, .inr (by rw [anew, fresh, run])⟩
        have onFile : (A.filingAt ctx call callee m.state).find? l = some sol :=
          hl _ _ _ _ serves (by rw [Filing.find?_store, if_pos rfl])
        rw [Analysis.run_freshSolution]
        simp only [onFile, Option.isSome_some, if_true]
        rw [again l (filed.trans hl) (hc.trans running), Filing.cancelled_store]

omit serves right running in
/-- The solution of a callee is found alike, if runs over callees are alike. -/
theorem solution_related
    (serves : ∀ s, S.Serves (A.filingAt ctx call callee s) depth (A.calleeContext ctx call callee s))
    (solved : ∀ s, (S.visits e).Rel (Visit.ofRun (solve (A.calleeContext ctx call callee s)))
      (Visit.ofRun (A.solveWithinVia A.freshSolution? depth (A.calleeContext ctx call callee s)))) :
    (S.visits e).Rel (Visit.checkCancelled >>= fun _ => A.strictSolution? e solve ctx call callee)
      (Visit.checkCancelled >>= fun _ =>
        A.freshSolution? (A.solveWithinVia A.freshSolution? depth) ctx call callee) := by
  refine rel_of_running fun m right running => ?_
  cases hfound : (A.filingAt ctx call callee m.state).find? m.ledger with
  | some sol => exact found_related (serves _) right running hfound
  | none => exact solved_related (serves _) right running hfound (solved _)

end Calls

/-! ### Runs -/

theorem accepts_related (ctx : Context V) (method : Symbol) :
    (S.visits e).Rel (Analysis.accepts ctx method) (Analysis.accepts ctx method) :=
  fun m right => ⟨Congruence.replaying_accepts (fun _ right => right.withCancelled true fun _ => rfl) ctx method m right, .inr rfl⟩

theorem solveBody_related (H : A.Apart) {ctx : Context V} {usual usual' : Call V → Visit V V}
    (usuals : ∀ call, ctx.graph.Calls call → (S.visits e).Rel (usual call) (usual' call)) :
    (S.visits e).Rel (Visit.ofRun (A.solveBody ctx usual)) (Visit.ofRun (A.solveBody ctx usual')) := by
  intro m right
  refine ⟨Congruence.replaying_solveBody H (fun call hcall m right => (usuals call hcall m right).toReplays) m right, ?_⟩
  rw [Analysis.run_ofRun, Analysis.run_ofRun, Analysis.run_solveBody, Analysis.run_solveBody]
  rcases ((S.visits e).settleBody H usuals (Analysis.startOf ctx m.ledger) right).same with fails | same
  · rcases hr : ExceptT.run (A.settleBody ctx usual) (Analysis.startOf ctx m.ledger) with ⟨failure | p, m₁⟩
    · rw [hr] at fails
      exact .inl (congrArg _ (Except.error.inj fails))
    · rw [hr] at fails
      cases fails
  · rw [same]
    exact .inr rfl

/-- Among runs that are served, to analyse callees anew makes no difference, unless operations do not fit into the
budget: by induction on how much the chain of calls may grow. -/
theorem related (H : A.Apart) {depth : Nat} {ctx : Context V} (within : S.Within depth ctx) :
    (S.visits e).Rel (Visit.ofRun (A.solveWithinVia (A.strictSolution? e) depth ctx))
      (Visit.ofRun (A.solveWithinVia A.freshSolution? depth ctx)) := by
  induction depth generalizing ctx with
  | zero => exact solveBody_related H fun call _ => (S.visits e).handleCallBy (accepts_related ctx _) .none
  | succ depth ih =>
    refine solveBody_related H fun call hcall => ?_
    refine (S.visits e).handleCallBy (accepts_related ctx _) (.some fun callee admitted away body => ?_)
    have served := S.follow within ⟨hcall, admitted, away, body⟩
    exact solution_related (fun s => (served s).2) fun s => ih (served s).1

end Serving

end Dataflow
