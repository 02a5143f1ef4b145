import Dataflow.Proofs.Contracts.Analyses

/-!
# How far calls are followed

A run follows calls into callees, whose runs follow calls in turn. What bounds this is checked where a
call is followed: the callee is not under way, the chain of calls may grow, there is no solution yet,
and the budget has room for the callee's operations.

## The notions

* `Context.Begins`, `Context.Ends`: what is to hold of the ledger when a run over a callee begins, and when
  it has come to a solution.
* `Analysis.solveWatched`: the solver, but each run over a body fails if it does not begin and end so.
* `Context.Grown`: what a run makes of a ledger.

## What is proved

Whatever a run does to its ledger is done by the calls that it follows, and each of these adds its own solution
to what the callee's run has filed (`Grown.call`); by induction on the length of the chain, the watched solver
does the same as the solver (`solveWithinWatched_agrees`). So bounds hold whenever a run begins, nothing is
analysed again, and the operations that are counted are those of the solutions
(`analyses_stay_within_bounds`).
-/

namespace Dataflow

variable {V : Type}

namespace Context

/-- Under what the solution of the body is filed, if it is a callee's. -/
def filing (ctx : Context V) : Filing V :=
  match ctx.entry with
  | none => .summary ctx.owner
  | some s => .inContext ⟨ctx.owner, ctx.callSites, s⟩

/-- The methods under way, that of the body first. -/
def underWay (ctx : Context V) : List Symbol := ctx.owner :: ctx.callStack.map (·.method)

/-- A run over the body begins within the bounds, and there is no solution of it yet. -/
structure Begins (ctx : Context V) (ledger : Ledger V) : Prop where
  /-- The chain of calls is not too long. -/
  chain : ctx.callStack.length ≤ ctx.config.calls.maxCallChain.toNat
  /-- No method is under way twice. -/
  distinct : ctx.underWay.Nodup
  /-- The budget is not exceeded. -/
  budget : ledger.nodesUsed ≤ ctx.config.calls.maxNodes
  /-- There is no solution. -/
  new : ctx.filing ∉ ledger.filings

/-- A run over the body has ended within the bounds; there still is no solution of it, and all others were kept. -/
structure Ends (ctx : Context V) (ledger after : Ledger V) : Prop where
  /-- The budget is not exceeded. -/
  budget : after.nodesUsed ≤ ctx.config.calls.maxNodes
  /-- There is no solution. -/
  new : ctx.filing ∉ after.filings
  /-- What was filed is still filed. -/
  kept : ledger.filings ⊆ after.filings

instance [DecidableEq V] (ctx : Context V) (ledger : Ledger V) : Decidable (ctx.Begins ledger) :=
  decidable_of_iff (ctx.callStack.length ≤ ctx.config.calls.maxCallChain.toNat ∧ ctx.underWay.Nodup ∧
      ledger.nodesUsed ≤ ctx.config.calls.maxNodes ∧ ctx.filing ∉ ledger.filings)
    ⟨fun ⟨chain, distinct, budget, new⟩ => ⟨chain, distinct, budget, new⟩,
      fun h => ⟨h.chain, h.distinct, h.budget, h.new⟩⟩

instance [DecidableEq V] (ctx : Context V) (ledger after : Ledger V) : Decidable (ctx.Ends ledger after) :=
  decidable_of_iff (after.nodesUsed ≤ ctx.config.calls.maxNodes ∧ ctx.filing ∉ after.filings ∧
      ∀ f ∈ ledger.filings, f ∈ after.filings)
    ⟨fun ⟨budget, new, kept⟩ => ⟨budget, new, kept⟩, fun h => ⟨h.budget, h.new, h.kept⟩⟩

end Context

namespace Analysis

variable (A : Analysis V) [DecidableEq V]

/-- A run over a body that fails unless it begins and ends as it should. -/
def watch (e : Failure) (ctx : Context V) (run : Run V (Solution V)) : Run V (Solution V) := do
  let ledger ← get
  if ctx.Begins ledger then
    let sol ← run
    if ctx.Ends ledger (← get) then return sol else throw e
  else throw e

/-- Solves a body whose chain of calls may grow by `depth`, and watches all runs. -/
def solveWithinWatched (e : Failure) : (depth : Nat) → Context V → Run V (Solution V)
  | 0, ctx => watch e ctx (A.solveBody ctx (A.handleCall ctx none))
  | depth + 1, ctx => watch e ctx (A.solveBody ctx (A.handleCall ctx (some (solveWithinWatched e depth))))

/-- Solves a body, and watches all runs. -/
def solveWatched (e : Failure) (ctx : Context V) : Run V (Solution V) :=
  A.solveWithinWatched e (ctx.config.calls.maxCallChain.toNat - ctx.callStack.length) ctx

end Analysis

/-! ### What a run does to a ledger -/

/-- What is filed while a body is visited: summaries of methods that are not under way, and what longer chains of calls
lead to. -/
def Filing.Below (ctx : Context V) : Filing V → Prop
  | summary method => ctx.isOnStack method = false
  | inContext key => ctx.callSites.length < key.callSites.length

/-- What a run over a body has made of a ledger. -/
structure Context.Grown (ctx : Context V) (ledger after : Ledger V) : Prop where
  /-- The budget is not exceeded. -/
  budget : after.nodesUsed ≤ ctx.config.calls.maxNodes
  /-- Operations were counted as solutions were filed. -/
  count : after.nodesUsed.toNat + ledger.filedOperations = ledger.nodesUsed.toNat + after.filedOperations
  /-- There is one solution for each filing. -/
  distinct : after.filings.Nodup
  /-- What was filed is still filed. -/
  kept : ledger.filings ⊆ after.filings
  /-- What is new. -/
  new : ∀ f ∈ after.filings, f ∈ ledger.filings ∨ f.Below ctx

namespace Context

variable {ctx : Context V} {callee : Graph} {site : OperationId} {entry : Option (State V)}
variable {ledger ledger' claimed after : Ledger V} {sol : Solution V}

theorem Grown.refl (budget : ledger.nodesUsed ≤ ctx.config.calls.maxNodes) (distinct : ledger.filings.Nodup) :
    ctx.Grown ledger ledger :=
  ⟨budget, rfl, distinct, List.Subset.refl _, fun _ hf => .inl hf⟩

theorem isOnStack_eq_false {method : Symbol} : ctx.isOnStack method = false ↔ method ∉ ctx.underWay := by
  simp only [isOnStack, underWay, Bool.or_eq_false_iff, beq_eq_false_iff_ne, List.any_eq_false, beq_iff_eq,
    List.mem_cons, List.mem_map, not_or, not_exists, not_and, ne_eq]
  exact and_congr_left fun _ => not_congr eq_comm

/-- The callee is added to what is under way. -/
theorem underWay_forCallee : (ctx.forCallee callee site entry).underWay.Perm (callee.owner :: ctx.underWay) := by
  simp only [underWay, forCallee, owner, List.map_append, List.map_cons, List.map_nil]
  exact (List.perm_append_singleton _ _).cons _

theorem length_callSites_forCallee : (ctx.forCallee callee site entry).callSites.length = ctx.callSites.length + 1 := by
  simp [callSites, forCallee]

/-- What is below a callee is below its caller. -/
theorem below_of_forCallee {f : Filing V} (h : f.Below (ctx.forCallee callee site entry)) : f.Below ctx := by
  cases f with
  | summary method =>
    have away := isOnStack_eq_false.1 h
    exact isOnStack_eq_false.2 fun hmem => away (underWay_forCallee.mem_iff.2 (List.mem_cons_of_mem _ hmem))
  | inContext key =>
    have longer : (ctx.forCallee callee site entry).callSites.length < key.callSites.length := h
    rw [length_callSites_forCallee] at longer
    exact (Nat.lt_succ_self _).trans longer

/-- A body is not below itself. -/
theorem not_below_filing : ¬ctx.filing.Below ctx := by
  unfold filing
  split
  · exact fun h => isOnStack_eq_false.1 h List.mem_cons_self
  · exact Nat.lt_irrefl _

/-- A callee is below its caller. -/
theorem filing_forCallee_below (away : ctx.isOnStack callee.owner = false) :
    (ctx.forCallee callee site entry).filing.Below ctx := by
  unfold filing
  split
  · exact away
  · exact Nat.lt_of_lt_of_eq (Nat.lt_succ_self _) length_callSites_forCallee.symm

/-- A run over a body files nothing for the body. -/
theorem Grown.filing_not_mem (h : ctx.Grown ledger after) (new : ctx.filing ∉ ledger.filings) : ctx.filing ∉ after.filings :=
  fun hmem => (h.new _ hmem).elim new not_below_filing

theorem Grown.ends (h : ctx.Grown ledger after) (new : ctx.filing ∉ ledger.filings) : ctx.Ends ledger after :=
  ⟨h.budget, h.filing_not_mem new, h.kept⟩

/-- A callee's run begins within bounds if its caller's did and its operations were claimed. -/
theorem Begins.forCallee {start : Ledger V} (h : ctx.Begins start)
    (chain : ctx.callStack.length < ctx.config.calls.maxCallChain.toNat) (away : ctx.isOnStack callee.owner = false)
    (new : (ctx.forCallee callee site entry).filing ∉ ledger.filings) {nodes : UInt64}
    (claim : ledger.reserve? nodes ctx.config.calls.maxNodes = .ok (some claimed)) :
    (ctx.forCallee callee site entry).Begins claimed := by
  refine ⟨?_, ?_, (Ledger.reserved claim).2, ?_⟩
  · rw [Context.forCallee, List.length_append]
    exact chain
  · exact underWay_forCallee.nodup_iff.2 (List.nodup_cons.2 ⟨isOnStack_eq_false.1 away, h.distinct⟩)
  · rw [Ledger.eq_of_reserve? claim]
    exact new

/-- A call that is followed: operations are claimed, the callee is solved, and the solution is filed. -/
theorem Grown.call (h : ctx.Grown ledger ledger') (away : ctx.isOnStack callee.owner = false)
    (new : (ctx.forCallee callee site entry).filing ∉ ledger'.filings)
    (claim : ledger'.reserve? (UInt64.ofNat callee.operationCount) ctx.config.calls.maxNodes = .ok (some claimed))
    (run : (ctx.forCallee callee site entry).Grown claimed after) (graph : sol.graph = callee) :
    ctx.Grown ledger ((ctx.forCallee callee site entry).filing.store sol after) := by
  have same : claimed.filings = ledger'.filings ∧ claimed.filedOperations = ledger'.filedOperations := by
    rw [Ledger.eq_of_reserve? claim]
    exact ⟨rfl, rfl⟩
  have absent := run.filing_not_mem (same.1 ▸ new)
  have filings := Filing.filings_store sol absent
  refine ⟨?_, ?_, ?_, fun f hf => ?_, fun f hf => ?_⟩
  · rw [Filing.nodesUsed_store]
    exact run.budget
  · have operations : sol.operations = (UInt64.ofNat callee.operationCount).toNat := by rw [Solution.operations, graph]
    have before := h.count
    have within := run.count
    rw [Filing.nodesUsed_store, Filing.filedOperations_store sol absent, operations]
    rw [(Ledger.reserved claim).1, same.2] at within
    omega
  · exact filings.nodup_iff.2 (List.nodup_cons.2 ⟨absent, run.distinct⟩)
  · exact filings.mem_iff.2 (List.mem_cons_of_mem _ (run.kept (same.1 ▸ h.kept hf)))
  · rcases List.mem_cons.1 (filings.mem_iff.1 hf) with rfl | hf
    · exact .inr (filing_forCallee_below away)
    · rcases run.new f hf with hf | hf
      · exact h.new f (same.1 ▸ hf)
      · exact .inr (below_of_forCallee hf)

end Context

namespace Analysis

variable {A B : Analysis V} {C : Constructors V} {valid : V → Prop} {ctx : Context V} {ledger : Ledger V} [DecidableEq V]

/-- Watching a run that begins and ends as it should does nothing. -/
theorem run_watch {e : Failure} {r : Run V (Solution V)} (begins : ctx.Begins ledger)
    (ends : ∀ sol after, ExceptT.run r ledger = (.ok sol, after) → ctx.Ends ledger after) :
    ExceptT.run (watch e ctx r) ledger = ExceptT.run r ledger := by
  have got : ∀ l : Ledger V, ExceptT.run (get : Run V (Ledger V)) l = (.ok l, l) := fun _ => rfl
  rw [watch, Visit.run_bind, got]
  dsimp only
  rw [if_pos begins, Visit.run_bind]
  rcases hr : ExceptT.run r ledger with ⟨failure | sol, after⟩
  · rfl
  · dsimp only
    rw [Visit.run_bind, got]
    dsimp only
    rw [if_pos (ends sol after hr)]
    rfl

/-! ### Whole runs -/

variable (valid ctx ledger) in
/-- Values are valid; ledgers have grown, and after a failure the budget is not exceeded. -/
def growing : Accord V :=
  Accord.ofValid valid (fun l => ctx.Grown ledger l ∧ l.Files (Solution.Lasts (State.Each valid) valid))
    fun _ l => l.nodesUsed ≤ ctx.config.calls.maxNodes

theorem Concludes.watched {e : Failure} {r r' : Run V (Solution V)} {P : Solution V → Prop} (begins : ctx.Begins ledger)
    (h : (growing valid ctx ledger).Concludes r r' P ledger) :
    (growing valid ctx ledger).Concludes r (watch e ctx r') P ledger := by
  obtain ⟨same, ends⟩ := h
  refine ⟨(run_watch begins fun sol after hr => ?_).trans same, ends⟩
  rw [same] at hr
  rw [hr] at ends
  exact ends.1.1.ends begins.new

/-- A callee's solution is the one that is filed, or the result of a watched run that comes to the same. -/
theorem calleeSolution_watched (U : A.Upright B C valid) (begins : ctx.Begins ledger)
    (chain : ctx.callStack.length < ctx.config.calls.maxCallChain.toNat) {call : Call V} {callee : Graph}
    (owner : callee.owner = call.method) (away : ctx.isOnStack call.method = false)
    (takes : (growing valid ctx ledger).Takes call) {solve solve' : Context V → Run V (Solution V)}
    (solved : ∀ entry claimed, (∀ s, entry = some s → State.Each valid s) →
      (ctx.forCallee callee call.operation.id entry).Begins claimed → claimed.filings.Nodup →
      claimed.Files (Solution.Lasts (State.Each valid) valid) →
        (growing valid (ctx.forCallee callee call.operation.id entry) claimed).Concludes
          (solve (ctx.forCallee callee call.operation.id entry)) (solve' (ctx.forCallee callee call.operation.id entry))
          (fun sol => sol.Lasts (State.Each valid) valid ∧ sol.graph = callee) claimed) (inContext : Bool) :
    (growing valid ctx ledger).Agree (A.calleeSolution? ctx solve call callee inContext)
      (A.calleeSolution? ctx solve' call callee inContext)
      fun found => ∀ sol, found = some sol → A.crossesCalls = true → sol.Lasts (State.Each valid) valid := by
  rw [← owner] at away
  -- A run over the callee that starts in some state.
  have run : ∀ (entry : Option (State V)) (f : Filing V), (∀ s, entry = some s → State.Each valid s) →
      (ctx.forCallee callee call.operation.id entry).filing = f →
      (growing valid ctx ledger).Agree
        (solution? ctx f.find? f.store callee (solve (ctx.forCallee callee call.operation.id entry)))
        (solution? ctx f.find? f.store callee (solve' (ctx.forCallee callee call.operation.id entry)))
        fun found => ∀ sol, found = some sol → A.crossesCalls = true → sol.Lasts (State.Each valid) valid := by
    rintro entry _ hentry rfl
    refine Accord.solution_agrees (fun l sol hl hf _ => Filing.of_find? hl.2 hf) (fun l v hl _ => hl.1.budget) ?_
    intro l claimed hl hfiled claim
    obtain ⟨grown, files⟩ := hl
    have new := Filing.find?_eq_none_iff.1 hfiled
    have same := Ledger.eq_of_reserve? claim
    obtain ⟨alike, ends⟩ := solved entry claimed hentry (begins.forCallee chain away new claim)
      (by rw [same]; exact grown.distinct) (by rw [same]; exact files)
    refine ⟨alike, ?_⟩
    rcases hr : ExceptT.run (solve (ctx.forCallee callee call.operation.id entry)) claimed with ⟨e | sol, after⟩
    · rw [hr] at ends
      exact ends
    · rw [hr] at ends
      obtain ⟨⟨hgrown, hfiles⟩, lasts, graph⟩ := ends
      exact ⟨⟨grown.call away new claim hgrown graph, Filing.files_store hfiles lasts⟩, fun _ => lasts⟩
  cases inContext with
  | true =>
    refine Accord.agree_state_bind fun s hs => ?_
    refine run (some (A.calleeEntry call callee s))
      (.inContext ⟨call.method, ctx.callSites ++ [call.operation.id], A.calleeEntry call callee s⟩)
      (fun t ht => Option.some.inj ht ▸ U.entry callee takes hs) ?_
    simp [Context.filing, Context.forCallee, Context.owner, Context.callSites, owner]
  | false => exact run none (.summary call.method) (fun t ht => by cases ht) (congrArg Filing.summary owner)

/-- The watched solver does the same as the solver: by induction on how much the chain of calls may grow. -/
theorem solveWithinWatched_agrees (U : A.Upright B C valid) (e : Failure) (depth : Nat) (ctx : Context V)
    (owned : ∀ method g, ctx.bodies method = some g → g.owner = method)
    (chain : ctx.callStack.length + depth ≤ ctx.config.calls.maxCallChain.toNat)
    (hentry : ∀ s, ctx.entry = some s → State.Each valid s) (ledger : Ledger V) (begins : ctx.Begins ledger)
    (distinct : ledger.filings.Nodup) (files : ledger.Files (Solution.Lasts (State.Each valid) valid)) :
    (growing valid ctx ledger).Concludes (A.solveWithin depth ctx) (A.solveWithinWatched e depth ctx)
      (fun sol => sol.Lasts (State.Each valid) valid ∧ sol.graph = ctx.graph) ledger := by
  -- A body is solved alike if callees are.
  have body : ∀ {ctx : Context V} {ledger : Ledger V} {deeper deeper' : Option (Context V → Run V (Solution V))},
      (∀ s, ctx.entry = some s → State.Each valid s) → ctx.Begins ledger → ledger.filings.Nodup →
      ledger.Files (Solution.Lasts (State.Each valid) valid) →
      (growing valid ctx ledger).Deepens A A ctx deeper deeper' →
        (growing valid ctx ledger).Concludes (A.solveBody ctx (A.handleCall ctx deeper))
          (watch e ctx (A.solveBody ctx (A.handleCall ctx deeper')))
          (fun sol => sol.Lasts (State.Each valid) valid ∧ sol.graph = ctx.graph) ledger := by
    intro ctx ledger deeper deeper' hentry begins distinct files deepens
    have hooks := (U.hooks (fun l hl => hl.1.budget) ctx :
      (growing valid ctx ledger).Hooks A B ctx).self
    have passes := (U.passes fun l hl => ⟨⟨hl.1.budget, hl.1.count, hl.1.distinct, hl.1.kept, hl.1.new⟩, hl.2⟩ :
      (growing valid ctx ledger).Passes A B).self
    exact Concludes.watched begins (Accord.solveBody_agrees hooks (U.joins (fun l hl => hl.1.budget) hentry)
      (Accord.handleCall_agrees hooks passes deepens) ⟨.refl begins.budget distinct, files⟩)
  induction depth generalizing ctx ledger with
  | zero => exact body hentry begins distinct files trivial
  | succ depth ih =>
    refine body hentry begins distinct files fun call callee away hbody takes => ?_
    refine calleeSolution_watched U begins (by omega) (owned _ _ hbody) away takes ?_ _
    intro entry claimed hentry begins distinct files
    refine ih (ctx.forCallee callee call.operation.id entry) owned ?_ hentry claimed begins distinct files
    rw [Context.forCallee, List.length_append]
    simp only [List.length_singleton]
    omega

/-- In the run over a body that nobody calls, every run over a body, to any depth of calls, begins and ends as it should: were
each of them to fail otherwise, with any failure, nothing would change. The budget is not exceeded; and after a success the
operations that were counted are those of the solutions that are filed, of which there is one for each filing. -/
def StaysWithin (A : Analysis V) (ctx : Context V) : Prop :=
  ∀ (e : Failure) (cancelled : Bool),
    (A.solveWatched e ctx).run (Ledger.start cancelled) = (A.solve ctx).run (Ledger.start cancelled) ∧
      ((A.solve ctx).run (Ledger.start cancelled)).2.nodesUsed ≤ ctx.config.calls.maxNodes ∧
      ∀ sol ledger, (A.solve ctx).run (Ledger.start cancelled) = (.ok sol, ledger) →
        ledger.nodesUsed.toNat = ledger.filedOperations ∧ ledger.filings.Nodup

theorem Upright.staysWithin (U : A.Upright B C valid) (stack : ctx.callStack = []) (entry : ctx.entry = none)
    (owned : ∀ method g, ctx.bodies method = some g → g.owner = method) : A.StaysWithin ctx := by
  intro e cancelled
  have nothing : (Ledger.start cancelled : Ledger V).filings = [] := rfl
  have begins : ctx.Begins (Ledger.start cancelled) := by
    refine ⟨?_, ?_, Nat.zero_le _, ?_⟩
    · simp [stack]
    · simp [Context.underWay, stack]
    · simp [nothing]
  have files : (Ledger.start cancelled).Files (Solution.Lasts (State.Each valid) valid) :=
    ⟨fun _ h => (List.not_mem_nil h).elim, fun _ _ h => by simp [Ledger.start] at h⟩
  obtain ⟨same, ends⟩ := solveWithinWatched_agrees U e (ctx.config.calls.maxCallChain.toNat - ctx.callStack.length) ctx owned
    (by simp [stack]) (fun s hs => by rw [entry] at hs; cases hs) _ begins (by simp [nothing]) files
  refine ⟨same, ?_, fun sol ledger h => ?_⟩
  · unfold solve
    rcases hr : ExceptT.run (A.solveWithin (ctx.config.calls.maxCallChain.toNat - ctx.callStack.length) ctx)
      (Ledger.start cancelled) with ⟨failure | sol, after⟩
    · rw [hr] at ends
      exact ends
    · rw [hr] at ends
      exact ends.1.1.budget
  · rw [solve] at h
    rw [h] at ends
    have count := ends.1.1.count
    exact ⟨by simpa [Ledger.start, Ledger.filedOperations, Ledger.solutions, FinMap.values, FinMap.empty] using count, ends.1.1.distinct⟩

/-- All analyses follow calls within the bounds, if bodies are found under the methods that own them. -/
theorem analyses_stay_within_bounds (bodies : Symbol → Option Graph)
    (owned : ∀ method g, bodies method = some g → g.owner = method) (rules : TaintRules) :
    (∀ ctx, ctx.bodies = bodies → ctx.callStack = [] → ctx.entry = none → pointsTo.StaysWithin ctx) ∧
      (∀ ctx, ctx.bodies = bodies → ctx.callStack = [] → ctx.entry = none → copies.StaysWithin ctx) ∧
      (∀ ctx, ctx.bodies = bodies → ctx.callStack = [] → ctx.entry = none → contents.StaysWithin ctx) ∧
      ∀ ctx, ctx.bodies = bodies → ctx.callStack = [] → ctx.entry = none → (taint rules).StaysWithin ctx := by
  refine ⟨?_, ?_, ?_, ?_⟩
  · rintro ctx rfl stack entry
    exact pointsTo_upright.staysWithin stack entry owned
  · rintro ctx rfl stack entry
    exact copies_upright.staysWithin stack entry owned
  · rintro ctx rfl stack entry
    exact contents_upright.staysWithin stack entry owned
  · rintro ctx rfl stack entry
    exact (taint_upright rules).staysWithin stack entry owned

/-! ### Two methods that call each other -/

namespace PingPong

/-- One of the two methods. -/
def ping : Symbol := Symbol.method "C" "ping" none

/-- The other one. -/
def pong : Symbol := Symbol.method "C" "pong" none

/-- Calls a method twice. -/
def callsTwice (owner callee : Symbol) : Graph where
  owner
  parameters := []
  blocks :=
    [⟨⟨0⟩, .entry,
        [.invocation ⟨⟨0⟩, none, ⟨0, 0⟩⟩ callee none [], .invocation ⟨⟨1⟩, none, ⟨0, 0⟩⟩ callee none []], none,
        [⟨⟨1⟩, .regular⟩], []⟩,
      ⟨⟨1⟩, .exit, [], none, [], []⟩]

/-- Each method calls the other one twice. -/
def bodies (m : Symbol) : Option Graph :=
  if m = ping then some (callsTwice ping pong) else if m = pong then some (callsTwice pong ping) else none

theorem owned {m : Symbol} {g : Graph} (h : bodies m = some g) : g.owner = m := by
  unfold bodies at h
  split at h
  · obtain rfl := Option.some.inj h
    exact Eq.symm ‹_›
  · split at h
    · obtain rfl := Option.some.inj h
      exact Eq.symm ‹_›
    · cases h

/-- The first method, with calls followed in context and few operations to spend. -/
def context : Context PointsTo :=
  Context.start (callsTwice ping pong)
    { Config.usual with calls := { CallConfig.usual .inContext with maxNodes := 3 } } bodies

end PingPong

open PingPong in
/-- The first call is followed, and the call back is not: its method is under way. For the second call the budget is too
small. -/
theorem analyses_stay_within_bounds_pingPong :
    (∀ method g, bodies method = some g → g.owner = method) ∧ pointsTo.StaysWithin context ∧
      ((pointsTo.solve context).run (Ledger.start false)).1.toOption.isSome ∧
      ((pointsTo.solve context).run (Ledger.start false)).2.nodesUsed = 2 ∧
      ((pointsTo.solve context).run (Ledger.start false)).2.contextual.map (fun e => (e.1.callee, e.1.callSites)) =
        [(pong, [⟨0⟩])] := by
  obtain ⟨within, -, -, -⟩ :=
    analyses_stay_within_bounds bodies (fun _ _ h => owned h) ⟨FinSet.empty, FinSet.empty, FinSet.empty, FinMap.empty⟩
  refine ⟨fun _ _ h => owned h, within context rfl rfl rfl, ?_, ?_, ?_⟩
  · decide +kernel
  · decide +kernel
  · decide +kernel

end Analysis

end Dataflow
