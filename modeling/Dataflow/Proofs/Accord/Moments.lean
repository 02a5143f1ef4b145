import Dataflow.Proofs.Accord.Calls

/-!
# The moments of a run

A solution keeps only the last states of each block. Here the states of all moments of a run are
described, those that later sweeps replace included: before and after every operation of every tree,
at the starts and ends of blocks, and where control flows together (`Analysis.Holds`). A run over a
callee has moments of its own, in a context that arises from the caller's (`Analysis.Arises`).

## What is proved

The solution of a run is made of its moments (`exists_between_of_solve`). What an accord says of states
holds at all moments (`state_of_holds`).
-/

namespace Dataflow

variable {V : Type}

namespace Analysis

variable (A : Analysis V) (ctx : Context V) (usual : Call V → Visit V V)

/-- The state before an operation is noted, and the operation is visited. -/
def statement (op : Operation) : Visit V PUnit := do
  Visit.recordBefore op.id
  let _ ← A.visit ctx usual op

/-! ### Moments -/

/-- The machine at the moments of a visit of an operation: before the visit, while the operands are visited
one after the other, and after it. -/
inductive Visiting : Operation → Machine V → Machine V → Prop
  /-- The visit begins. -/
  | start (op : Operation) (m : Machine V) : Visiting op m m
  /-- An operand is visited, after those before it. -/
  | operand {op o : Operation} {before after : List Operation} {m m₁ m₂ : Machine V} {seen : List (Seen V)}
      (split : op.operands = before ++ o :: after)
      (run : ExceptT.run (A.seeAll ctx usual before) m = (.ok seen, m₁)) (within : Visiting o m₁ m₂) :
      Visiting op m m₂
  /-- The visit is over. -/
  | finish {op : Operation} {m m' : Machine V} {v : V} (run : ExceptT.run (A.visit ctx usual op) m = (.ok v, m')) :
      Visiting op m m'

/-- The machine at the moments of a visit of a block in a state. -/
inductive VisitingBlock (b : Block) (input : State V) (m : Machine V) : Machine V → Prop
  /-- An operation is visited, after those before it. -/
  | statement {op : Operation} {before after : List Operation} {m₁ m₂ : Machine V}
      (split : b.allOperations = before ++ op :: after)
      (run : ExceptT.run (do
        Visit.setState input
        before.forM (A.statement ctx usual)
        Visit.recordBefore op.id) m = (.ok (), m₁)) (within : Visiting A ctx usual op m₁ m₂) :
      VisitingBlock b input m m₂
  /-- Some scopes are over, after all operations. -/
  | scope {gone rest : List Symbol} {m₁ : Machine V} (split : b.leavingScope = gone ++ rest)
      (run : ExceptT.run (do
        Visit.setState input
        b.allOperations.forM (A.statement ctx usual)
        A.leaveScope gone) m = (.ok (), m₁)) : VisitingBlock b input m m₁

variable [DecidableEq V]

/-- How far a run over a body has come, between visits of blocks. -/
inductive Between (initial : State V) (m₀ : Machine V) : Progress V → Machine V → Prop
  /-- Nothing was visited. -/
  | start : Between initial m₀ Progress.start m₀
  /-- A sweep begins. -/
  | sweep {p : Progress V} {m : Machine V} (h : Between initial m₀ p m) :
      Between initial m₀ { p with passes := p.passes + 1 } m
  /-- It was the turn of a block. -/
  | block {p p' : Progress V} {m m' : Machine V} {b : Block} {changed : Bool} (h : Between initial m₀ p m)
      (mem : b ∈ sweepOrder ctx.graph)
      (run : ExceptT.run (A.visitBlock ctx usual initial b p) m = (.ok (p', changed), m')) :
      Between initial m₀ p' m'

/-- The usual way to handle calls in a run over a body. -/
def usualIn : Call V → Visit V V :=
  match ctx.config.calls.maxCallChain.toNat - ctx.callStack.length with
  | 0 => A.handleCall ctx none
  | depth + 1 => A.handleCall ctx (some (A.solveWithin depth))

/-- The states that a run over a body holds at some moment. -/
inductive Holds (ledger : Ledger V) : State V → Prop
  /-- At the start of a block. -/
  | entry {initial s : State V} {p : Progress V} {m : Machine V} {b : BlockId} (start : A.initialState ctx = .ok initial)
      (between : Between A ctx (A.usualIn ctx) initial (startOf ctx ledger) p m) (h : p.entries.find? b = some s) :
      Holds ledger s
  /-- At the end of a block. -/
  | exit {initial s : State V} {p : Progress V} {m : Machine V} {b : BlockId} (start : A.initialState ctx = .ok initial)
      (between : Between A ctx (A.usualIn ctx) initial (startOf ctx ledger) p m) (h : p.exits.find? b = some s) :
      Holds ledger s
  /-- Where control flows together before a block. -/
  | inflow {initial s : State V} {p : Progress V} {m : Machine V} {b : Block} (start : A.initialState ctx = .ok initial)
      (between : Between A ctx (A.usualIn ctx) initial (startOf ctx ledger) p m)
      (h : p.inflow A.domain ctx.graph initial b = some s) : Holds ledger s
  /-- While a block is visited. -/
  | inside {initial input : State V} {p : Progress V} {m m' : Machine V} {b : Block}
      (start : A.initialState ctx = .ok initial)
      (between : Between A ctx (A.usualIn ctx) initial (startOf ctx ledger) p m) (mem : b ∈ sweepOrder ctx.graph)
      (next : p.nextEntry A.domain ctx.graph ctx.config.visitsBeforeWidening.toNat initial b = some input)
      (h : VisitingBlock A ctx (A.usualIn ctx) b input m m') : Holds ledger m'.state

omit [DecidableEq V] in
/-- The contexts of the runs that a run causes: a callee is solved for one call or for all. -/
inductive Arises : Context V → Prop
  /-- A body that nobody calls. -/
  | start {ctx : Context V} (stack : ctx.callStack = []) (entry : ctx.entry = none) : Arises ctx
  /-- A callee, for all its calls. -/
  | summary {ctx : Context V} (h : Arises ctx) (callee : Graph) (site : OperationId) :
      Arises (ctx.forCallee callee site none)
  /-- A callee, for one call in some state. -/
  | inContext {ctx : Context V} (h : Arises ctx) (callee : Graph) (site : OperationId) (call : Call V) (s : State V) :
      Arises (ctx.forCallee callee site (some (A.calleeEntry call callee s)))

variable {A ctx usual}

theorem solve_eq_solveBody : A.solve ctx = A.solveBody ctx (A.usualIn ctx) := by
  unfold solve usualIn
  cases ctx.config.calls.maxCallChain.toNat - ctx.callStack.length with
  | zero => rfl
  | succ depth => rfl

/-! ### A solution is made of moments -/

variable {initial : State V} {m₀ : Machine V}

theorem sweep_between {l : List Block} (hl : ∀ b ∈ l, b ∈ sweepOrder ctx.graph) {p : Progress V} {m : Machine V}
    (h : Between A ctx usual initial m₀ p m) :
    Visit.Ensures (A.sweep ctx usual initial l p) m fun r m' => Between A ctx usual initial m₀ r.1 m' := by
  induction l generalizing p m with
  | nil =>
    rw [sweep, Visit.ensures_pure]
    exact h
  | cons b l ih =>
    rw [sweep, Visit.ensures_bind]
    intro r m₁ hrun
    obtain ⟨p₁, changed⟩ := r
    dsimp only
    rw [Visit.ensures_bind]
    refine (ih (fun c hc => hl c (List.mem_cons_of_mem _ hc)) (h.block (hl b List.mem_cons_self) hrun)).mono fun r m₂ hr => ?_
    rw [Visit.ensures_pure]
    exact hr

theorem settle_between {limit : Nat} {p : Progress V} {m : Machine V} (h : Between A ctx usual initial m₀ p m) :
    Visit.Ensures (A.settle ctx usual initial (sweepOrder ctx.graph) limit p) m fun p' m' =>
      Between A ctx usual initial m₀ p' m' := by
  induction limit generalizing p m with
  | zero => exact Visit.ensures_throw _ _ _
  | succ limit ih =>
    rw [settle, Visit.ensures_bind]
    refine (sweep_between (fun _ hb => hb) h.sweep).mono fun r m₁ hr => ?_
    obtain ⟨p₁, changed⟩ := r
    cases changed with
    | true => exact ih hr
    | false =>
      show Visit.Ensures (pure p₁) m₁ _
      rw [Visit.ensures_pure]
      exact hr

theorem settleBody_between :
    Visit.Ensures (A.settleBody ctx usual) m₀ fun p m =>
      ∃ initial, A.initialState ctx = .ok initial ∧ Between A ctx usual initial m₀ p m := by
  unfold settleBody
  rw [Visit.ensures_bind, Visit.ensures_check]
  intro initial hinitial
  exact (settle_between .start).mono fun p m hp => ⟨initial, hinitial, hp⟩

/-- What a run that succeeds puts down is how far it has come at one of its moments. -/
theorem exists_between_of_solve {ledger ledger' : Ledger V} {sol : Solution V}
    (h : (A.solve ctx).run ledger = (.ok sol, ledger')) :
    ∃ initial p m, A.initialState ctx = .ok initial ∧
      Between A ctx (A.usualIn ctx) initial (startOf ctx ledger) p m ∧ sol = A.solutionOf ctx p m.notes := by
  rw [solve_eq_solveBody] at h
  obtain ⟨p, m, hrun, hsol, -⟩ := run_solveBody_eq_ok.1 h
  obtain ⟨initial, hinitial, between⟩ := settleBody_between p m hrun
  exact ⟨initial, p, m, hinitial, between, hsol⟩

/-- What visits of blocks keep of the machine holds between them. -/
theorem Between.keeps {P : Machine V → Prop}
    (block : ∀ b ∈ sweepOrder ctx.graph, ∀ s m, P m → Visit.Ensures (A.runBlock ctx usual b s) m fun _ m' => P m')
    (start : P m₀) {p : Progress V} {m : Machine V} (h : Between A ctx usual initial m₀ p m) : P m := by
  induction h with
  | start => exact start
  | sweep _ ih => exact ih
  | @block p p' m m' b changed _ mem run ih =>
    have kept : Visit.Ensures (A.visitBlock ctx usual initial b p) m fun _ m' => P m' := by
      unfold visitBlock
      rw [Visit.ensures_bind, Visit.ensures_checkCancelled]
      intro _
      split
      · rw [Visit.ensures_pure]
        exact ih
      · rw [Visit.ensures_bind]
        refine (block b mem _ m ih).mono fun output m' hm' => ?_
        split <;> exact (Visit.ensures_pure _ _ _).2 hm'
    exact kept _ _ run

end Analysis

/-! ### What an accord says of all moments -/

namespace Accord

variable {G : Accord V} {A B : Analysis V} {ctx : Context V} {usual : Call V → Visit V V} {m m' : Machine V}

open Analysis

theorem holds_of_visiting (H : G.Hooks A A ctx) (usuals : G.Handles usual usual) {op : Operation} (hm : G.Holds m)
    (h : Visiting A ctx usual op m m') : G.Holds m' := by
  induction h with
  | start => exact hm
  | operand _ run _ ih => exact ih ((seeAll_agrees fun o _ => visit_agrees H usuals o).ensures hm _ _ run).1
  | finish run => exact ((visit_agrees H usuals _).ensures hm _ _ run).1

theorem holds_of_visitingBlock (H : G.Hooks A A ctx) (usuals : G.Handles usual usual) {b : Block} {input : State V}
    (hinput : G.state input) (hm : G.Holds m) (h : VisitingBlock A ctx usual b input m m') : G.Holds m' := by
  have agrees : ∀ (l : List Operation) (x : Visit V Unit), G.Agree x x (fun _ => True) →
      G.Agree (do Visit.setState input; l.forM (A.statement ctx usual); x)
        (do Visit.setState input; l.forM (A.statement ctx usual); x) fun _ => True := fun l x hx =>
    (agree_setState hinput).bind fun _ _ =>
      (agree_forM fun op _ => statement_agrees H usuals op).bind fun _ _ => hx
  cases h with
  | statement _ run within =>
    exact holds_of_visiting H usuals ((agrees _ _ (agree_recordBefore _)).ensures hm _ _ run).1 within
  | scope _ run => exact ((agrees _ _ (leaveScope_agrees H _)).ensures hm _ _ run).1

variable [DecidableEq V]

theorem reaches_of_between (H : G.Hooks A A ctx) (J : G.Joins A ctx) (usuals : G.Handles usual usual) {initial : State V}
    (hinitial : G.state initial) {p : Progress V} (hm : G.Holds m) (h : Between A ctx usual initial m p m') :
    G.Holds m' ∧ G.Reaches p := by
  induction h with
  | start =>
    refine ⟨hm, fun b s hs => ?_, fun b s hs => ?_⟩
    · simp [Progress.start] at hs
    · simp [Progress.start] at hs
  | sweep _ ih => exact ⟨ih.1, ih.2.entries, ih.2.exits⟩
  | block _ _ run ih => exact (visitBlockBy_agrees H J (joined_self ctx) usuals hinitial _ ih.2).ensures ih.1 _ _ run

/-- What an accord says of states holds of all states that a run holds. -/
theorem state_of_holds (H : G.Hooks A A ctx) (J : G.Joins A ctx) (usuals : G.Handles (A.usualIn ctx) (A.usualIn ctx))
    {ledger : Ledger V} (hledger : G.ledger ledger) {s : State V} (h : A.Holds ctx ledger s) : G.state s := by
  have start : G.Holds (startOf ctx ledger) :=
    ⟨J.empty, fun op s hs => by simp [startOf, Notes.start] at hs, fun op v hv => by simp [startOf, Notes.start] at hv,
      hledger⟩
  have reaches : ∀ {initial p m}, A.initialState ctx = .ok initial →
      Between A ctx (A.usualIn ctx) initial (startOf ctx ledger) p m → G.state initial ∧ G.Holds m ∧ G.Reaches p :=
    fun hinitial between =>
      have good := J.initial.2.1 _ hinitial
      ⟨good, reaches_of_between H J usuals good start between⟩
  cases h with
  | entry hinitial between h => exact (reaches hinitial between).2.2.entries _ _ h
  | exit hinitial between h => exact (reaches hinitial between).2.2.exits _ _ h
  | inflow hinitial between h =>
    obtain ⟨good, -, hp⟩ := reaches hinitial between
    exact state_of_inflow J good hp h
  | inside hinitial between _ next h =>
    obtain ⟨good, hm, hp⟩ := reaches hinitial between
    exact (holds_of_visitingBlock H usuals (state_of_nextEntry J good hp next) hm h).state

end Accord

end Dataflow
