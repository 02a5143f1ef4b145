import Dataflow.Proofs.Calls.Afresh
import Dataflow.Proofs.Calls.Unfollowed

/-!
# Bodies in which no call is followed

A call is refused for many reasons, at each call site for its own. Where all calls of a body are refused, the run
over it is in step with the run that may not follow any. It differs only in that the filter is asked, and the filter may
cancel the work.

## The notions

* `Context.Refuses`: calls of a method are not followed.
* `Replacement.idle`: no callee was analysed.
* `Likeness.vain`: a visit comes to what another one comes to, as long as no callee was analysed, or it is cancelled.
* `Analysis.InVain`: a run comes to what the run comes to that follows no calls, or the filter cancels it.

## What is proved

The four analyses run in vain over bodies all of whose calls are refused (`Analysis.analyses_inVain`).
-/

namespace Dataflow

variable {V : Type}

/-! ### Refusals -/

/-- The method that an operation calls. -/
def Operation.callee? : Operation → Option Symbol
  | .invocation _ method _ _ => some method
  | _ => none

/-- The body calls the method. -/
def Graph.Invokes (g : Graph) (method : Symbol) : Prop :=
  ∃ op ∈ Operation.subtrees g.operations, op.callee? = some method

theorem Graph.Calls.invokes {g : Graph} {call : Call V} (h : g.Calls call) : g.Invokes call.method := by
  obtain ⟨mem, info, receiver, arguments, eq⟩ := h
  exact ⟨call.operation, mem, by rw [eq]; rfl⟩

namespace Context

/-- Calls of the method are not followed: the filter rejects it, there is no body, it is under way, the chain of calls
may not grow, or the body has more operations, counted in a machine word, than all callees may have together. -/
def Refuses (ctx : Context V) (method : Symbol) : Prop :=
  ctx.admits method = false ∨ ctx.bodies method = none ∨ ctx.isOnStack method = true ∨
    ctx.config.calls.maxCallChain.toNat ≤ ctx.callStack.length ∨
    ∃ callee, ctx.bodies method = some callee ∧ ctx.config.calls.maxNodes < UInt64.ofNat callee.operationCount

/-- The filter cancels the work when it is asked about the method. -/
def CancelsAt (ctx : Context V) (method : Symbol) : Prop :=
  ∃ filter, ctx.config.filter = some filter ∧ (filter.judge method).cancel = true

/-- No call of the body is followed. -/
def RefusesAll (ctx : Context V) : Prop := ∀ method, ctx.graph.Invokes method → ctx.Refuses method

end Context

/-- No callee was analysed. -/
def Replacement.idle (cancelled : Bool) : Replacement V :=
  ⟨fun _ => Ledger.start cancelled, fun _ => FinMap.empty, id⟩

/-- A budget that is too small for the operations is not touched. -/
theorem Ledger.reserve?_start {cancelled : Bool} {nodes budget : UInt64} (h : budget < nodes) :
    (start cancelled : Ledger V).reserve? nodes budget = .ok none := by
  have room : ¬ UInt64.size ≤ (0 : UInt64).toNat + nodes.toNat := by
    have := nodes.toNat_lt_size
    simpa using this
  unfold reserve? start
  rw [if_neg room, if_pos (by simpa using h)]

/-! ### In step, unless cancelled -/

/-- How two visits end of which the first one may be cancelled. -/
inductive Ends {α : Type} (cancels : Prop) : Except Failure α × Machine V → Except Failure α × Machine V → Prop where
  /-- Both end in the same way. The first one may be cancelled soon. -/
  | same (r : Except Failure α) (m : Machine V) {cancelled : Bool} (cause : cancelled = true → cancels) :
    Ends cancels (r, (Replacement.idle cancelled).put m) (r, (Replacement.idle false).put m)
  /-- The first one is cancelled. -/
  | cancelled (cause : cancels) (m : Machine V) (r : Except Failure α × Machine V) :
    Ends cancels (.error .cancelled, (Replacement.idle true).put m) r

/-- As long as no callee was analysed, the first visit comes to what the second one comes to, or it is cancelled. -/
def Likeness.vain (cancels : Prop) (V : Type) : Likeness V where
  Rel x y := ∀ (m : Machine V) (cancelled : Bool), (cancelled = true → cancels) →
    Ends cancels (ExceptT.run x ((Replacement.idle cancelled).put m)) (ExceptT.run y ((Replacement.idle false).put m))
  Hidden φ := ∃ cancelled, φ = Replacement.idle cancelled
  blind hx m cancelled cause := by
    rw [hx _ ⟨cancelled, rfl⟩, hx _ ⟨false, rfl⟩]
    exact .same _ _ cause
  bind {α β x y f g} hx hf m cancelled cause := by
    rw [Visit.run_bind, Visit.run_bind]
    have first := hx m cancelled cause
    generalize ExceptT.run x _ = r, ExceptT.run y _ = r' at first
    cases first with
    | same r m' cause' =>
      cases r with
      | error e => exact .same _ _ cause'
      | ok a => exact hf a m' _ cause'
    | cancelled cause m' r' => exact .cancelled cause _ _
  checkCancelled m cancelled cause := by
    rw [Visit.run_checkCancelled_eq, Visit.run_checkCancelled_eq]
    cases cancelled with
    | false => exact .same _ _ cause
    | true => exact .cancelled (cause rfl) m _
  withdraw φ hφ op hits := by
    obtain ⟨cancelled, rfl⟩ := hφ
    rfl

namespace Likeness

variable {cancels : Prop} {α : Type} {x y : Visit V α}

/-- A check for cancellation may come first. -/
theorem vain_checkCancelled_bind (h : (vain cancels V).Rel x y) :
    (vain cancels V).Rel (Visit.checkCancelled >>= fun _ => x) y := by
  intro m cancelled cause
  cases cancelled with
  | false =>
    rw [Visit.run_of_running rfl]
    exact h m false cause
  | true =>
    rw [Visit.run_of_cancelled rfl]
    exact .cancelled (cause rfl) _ _

/-- The filter may be asked first. -/
theorem vain_accepts_bind {ctx : Context V} {method : Symbol} (cause : ctx.CancelsAt method → cancels)
    (h : (vain cancels V).Rel x y) : (vain cancels V).Rel (Analysis.accepts ctx method >>= fun _ => x) y := by
  unfold Analysis.accepts
  cases hfilter : ctx.config.filter with
  | none => exact h
  | some filter =>
    dsimp only
    split
    · rename_i hcancel
      intro m cancelled _
      exact h m true fun _ => cause ⟨filter, hfilter, hcancel⟩
    · exact h

end Likeness

namespace Analysis

variable {A : Analysis V} {ctx : Context V} {cancels : Prop} [DecidableEq V]

/-- A solution that is not on file is not made if the operations do not fit into the budget. -/
theorem run_calleeSolution_of_exceeds {solve : Context V → Run V (Solution V)} {call : Call V} {callee : Graph}
    (exceeds : ctx.config.calls.maxNodes < UInt64.ofNat callee.operationCount) (m : Machine V) (cancelled : Bool) :
    ExceptT.run (A.calleeSolution? ctx solve call callee (ctx.config.calls.handling == .inContext))
      ((Replacement.idle cancelled).put m) = (.ok none, (Replacement.idle cancelled).put m) := by
  have ledger : ((Replacement.idle cancelled).put m).ledger = Ledger.start cancelled := rfl
  have unfiled (f : Filing V) : f.find? (Ledger.start cancelled) = none := by cases f <;> rfl
  rw [run_calleeSolution, ledger, unfiled, Ledger.reserve?_start exceeds]

/-- A call that is refused is in step with an opaque one. -/
theorem handleCall_vain {deeper : Option (Context V → Run V (Solution V))} {call : Call V}
    (short : ctx.config.calls.maxCallChain.toNat ≤ ctx.callStack.length → deeper = none)
    (refuses : ctx.Refuses call.method) (cause : ctx.CancelsAt call.method → cancels) :
    (Likeness.vain cancels V).Rel (A.handleCall ctx deeper call) (A.callOpaquely ctx.config call) := by
  have opaquely : (Likeness.vain cancels V).Rel (A.callOpaquely ctx.config call) (A.callOpaquely ctx.config call) :=
    (Likeness.vain cancels V).blind (callOpaquely_blind _ _)
  unfold handleCall
  split
  · exact opaquely
  rw [accepts_bind]
  refine Likeness.vain_accepts_bind cause ?_
  cases admitted : ctx.admits call.method with
  | false => exact opaquely
  | true =>
    cases hstack : ctx.isOnStack call.method with
    | true => exact opaquely
    | false =>
      cases deeper with
      | none => exact opaquely
      | some solve =>
        cases hbody : ctx.bodies call.method with
        | none => exact opaquely
        | some callee =>
          -- nothing but the budget is left to refuse the call
          have exceeds : ctx.config.calls.maxNodes < UInt64.ofNat callee.operationCount := by
            rcases refuses with rejected | missing | underWay | long | ⟨g, body, exceeds⟩
            · rw [admitted] at rejected
              cases rejected
            · rw [hbody] at missing
              cases missing
            · rw [hstack] at underWay
              cases underWay
            · cases short long
            · rw [hbody] at body
              obtain rfl := Option.some.inj body
              exact exceeds
          refine Likeness.vain_checkCancelled_bind fun m cancelled cause => ?_
          rw [Visit.run_bind, run_calleeSolution_of_exceeds exceeds]
          exact opaquely m cancelled cause

/-! ### Runs -/

/-- If the work was cancelled before, then no operation is visited. -/
theorem settleBody_of_cancelled {m : Machine V} (h : m.ledger.cancelled = true) :
    ∃ r, ∀ usual, ExceptT.run (A.settleBody ctx usual) m = (r, m) := by
  obtain ⟨rest, limit⟩ : ∃ rest, sweepLimit = rest + 1 := ⟨UInt64.size - 1, rfl⟩
  unfold settleBody
  rw [limit]
  cases A.initialState ctx with
  | error v => exact ⟨.error (.violated v), fun _ => rfl⟩
  | ok initial =>
    cases sweepOrder ctx.graph with
    | nil => exact ⟨.ok { Progress.start with passes := 1 }, fun _ => rfl⟩
    | cons b bs =>
      exact ⟨.error .cancelled, fun usual => run_settle_of_cancelled initial b bs rest Progress.start h⟩

variable (A ctx) in
/-- A run comes to what the run comes to that follows no calls, and analyses no callees; or the filter cancels it when
it is asked about a method that the body calls. -/
def InVain : Prop :=
  ∀ cancelled : Bool,
    (∃ cancelled', (A.solve ctx).run (Ledger.start cancelled) =
        (((A.solve (ctx.handling .none)).run (Ledger.start cancelled)).1, Ledger.start cancelled') ∧
      ∀ sol, ((A.solve ctx).run (Ledger.start cancelled)).1 = .ok sol → sol.callees = []) ∨
    ((A.solve ctx).run (Ledger.start cancelled)).1 = .error .cancelled ∧
      ∃ method, ctx.graph.Invokes method ∧ ctx.CancelsAt method

/-- If the visits of the body end in the same way without callees, then so do the runs. -/
theorem run_solveBody_of_idle {usual usual' : Call V → Visit V V} {l l' : Ledger V} {r : Except Failure (Progress V)}
    {m : Machine V} {cancelled cancelled' : Bool}
    (h : ExceptT.run (A.settleBody ctx usual) (startOf ctx l) = (r, (Replacement.idle cancelled).put m))
    (h' : ExceptT.run (A.settleBody ctx usual') (startOf ctx l') = (r, (Replacement.idle cancelled').put m)) :
    (A.solveBody ctx usual).run l = (((A.solveBody ctx usual').run l').1, Ledger.start cancelled) ∧
      ∀ sol, ((A.solveBody ctx usual).run l).1 = .ok sol → sol.callees = [] := by
  rw [run_solveBody, run_solveBody, h, h']
  cases r with
  | error e => exact ⟨rfl, fun _ hsol => by cases hsol⟩
  | ok p =>
    refine ⟨rfl, fun sol hsol => ?_⟩
    obtain rfl := Except.ok.inj hsol
    rfl

/-- A run is in vain if its body calls only methods that are refused. -/
theorem inVain (I : A.Inward) (H : A.Blind fun φ => ∃ cancelled, φ = Replacement.idle cancelled)
    (refused : ctx.RefusesAll) : A.InVain ctx := by
  intro cancelled
  have start : (Replacement.idle cancelled).put (startOf ctx (Ledger.start cancelled)) =
      startOf ctx (Ledger.start cancelled) := rfl
  obtain ⟨deeper, eq, short⟩ := exists_solveBody A ctx
  rw [eq, solve_handling_none ctx I]
  cases cancelled with
  | true =>
    -- no call is reached, so it does not matter how calls are handled
    have untouched : ∃ r, ∀ usual, ExceptT.run (A.settleBody ctx usual) (startOf ctx (Ledger.start true)) =
        (r, startOf ctx (Ledger.start true)) := settleBody_of_cancelled rfl
    obtain ⟨r, ends⟩ := untouched
    rw [← start] at ends
    exact .inl ⟨true, run_solveBody_of_idle (ends _) (ends _)⟩
  | false =>
    let cancels := ∃ method, ctx.graph.Invokes method ∧ ctx.CancelsAt method
    have body : (Likeness.vain cancels V).Rel (A.settleBody ctx (A.handleCall ctx deeper))
        (A.settleBody ctx (A.callOpaquely ctx.config)) :=
      (Likeness.vain cancels V).settleBody H fun call hcall =>
        handleCall_vain short (refused _ hcall.invokes) fun cause => ⟨_, hcall.invokes, cause⟩
    have ends := body (startOf ctx (Ledger.start false)) false fun h => by cases h
    rw [start] at ends
    generalize hr : ExceptT.run (A.settleBody ctx (A.handleCall ctx deeper)) _ = r,
      hr' : ExceptT.run (A.settleBody ctx (A.callOpaquely ctx.config)) _ = r' at ends
    cases ends with
    | same r m cause => exact .inl ⟨_, run_solveBody_of_idle hr hr'⟩
    | cancelled cause m r' =>
      refine .inr ⟨?_, cause⟩
      rw [run_solveBody, hr]

namespace Refusing

open Polling (info)
open SharedSite (method call graph rules)

/-- Calls itself and three other methods. -/
def main : Graph :=
  graph (method "main")
    [call 1 (method "main"), call 2 (method "rejected"), call 3 (method "missing"),
      .ret (info 5) (some (call 4 (method "long")))]

/-- All methods but one have bodies, of two operations each. -/
def bodies (m : Symbol) : Option Graph :=
  if m = method "missing" then none else some (graph m [.ret (info 11) (some (.literal (info 10) (.integer 1)))])

/-- A run over the method at the top, in context and with a budget of one operation. -/
def context {V : Type} (filter : CallFilter) : Context V :=
  Context.start main { Config.usual with calls := ⟨.inContext, 3, 1⟩, filter := some filter } bodies

/-- A filter that rejects one of the methods. -/
def rejecting : CallFilter := .ofTexts 0 ["C.rejected"] []

/-- A filter that cancels the work at that method. -/
def cancelling : CallFilter := .ofTexts 1 ["C.rejected"] ["C.rejected"]

theorem invoked {m : Symbol} (h : main.Invokes m) :
    m = method "main" ∨ m = method "rejected" ∨ m = method "missing" ∨ m = method "long" := by
  obtain ⟨op, mem, callee⟩ := h
  have all : (Operation.subtrees main.operations).filterMap Operation.callee? =
      [method "main", method "rejected", method "missing", method "long"] := by decide +kernel
  have listed := List.mem_filterMap.2 ⟨op, mem, callee⟩
  rw [all] at listed
  simpa using listed

theorem refusesAll {V : Type} {filter : CallFilter} (rejects : (filter.judge (method "rejected")).accept = false) :
    (context filter : Context V).RefusesAll := by
  intro m h
  rcases invoked h with rfl | rfl | rfl | rfl
  · exact .inr (.inr (.inl (Bool.or_eq_true_iff.2 (.inl (beq_self_eq_true _)))))
  · exact .inl rejects
  · have missing : bodies (method "missing") = none := if_pos rfl
    exact .inr (.inl missing)
  · have body : bodies (method "long") =
        some (graph (method "long") [.ret (info 11) (some (.literal (info 10) (.integer 1)))]) :=
      if_neg (by decide +kernel)
    refine .inr (.inr (.inr (.inr ⟨_, body, ?_⟩)))
    show (1 : UInt64) < _
    decide +kernel

end Refusing

end Analysis

end Dataflow
