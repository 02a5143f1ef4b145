import Dataflow.Proofs.Accord.Walk
import Dataflow.Proofs.Solver.Sweeps

/-!
# Bodies in accord

If visits of operations agree, and if states and values are joined alike, then bodies are solved alike:
the same blocks are visited in the same states, sweep by sweep, and the same is noted. A second way to
join may check on the way what the first one takes for granted (`Joining`).

## What is proved

Every loop of the solver agrees, from the visit of a block to the run over a body
(`solveBodyBy_agrees`, `solveBody_agrees`). Whatever is put down in a solution is as the accord says
(`Solution.Lasts`).
-/

namespace Dataflow

variable {V α : Type}

/-- What a solution says of states and of what is returned. -/
structure Solution.Lasts (state : State V → Prop) (value : V → Prop) (sol : Solution V) : Prop where
  /-- At the starts of blocks. -/
  entries : ∀ b s, sol.entries.find? b = some s → state s
  /-- At the ends of blocks. -/
  exits : ∀ b s, sol.exits.find? b = some s → state s
  /-- Before operations. -/
  before : ∀ op s, sol.before.find? op = some s → state s
  /-- What is returned. -/
  returned : ∀ v, sol.returned = some v → value v

/-! ### Ways to join -/

/-- How states and values are joined where paths meet. The rules of constructors may be checked on the way. -/
structure Joining (V : Type) where
  /-- The state to visit a block in, if there is a new one. -/
  next : Context V → State V → Progress V → Block → Checked (Option (State V))
  /-- What the returns of a body return together. -/
  returned : List V → Checked (Option V)

namespace Analysis

variable [DecidableEq V] (A : Analysis V) (J : Joining V) (ctx : Context V) (usual : Call V → Visit V V)

/-- The analysis joins by its domain and checks nothing. -/
def joining : Joining V where
  next := fun ctx initial p b =>
    .ok (p.nextEntry A.domain ctx.graph ctx.config.visitsBeforeWidening.toNat initial b)
  returned := fun l => .ok (returnedBy A.domain l)

/-- Visits a block if there is a new state for it, and says whether what it leaves has changed. -/
def visitBlockBy (initial : State V) (b : Block) (p : Progress V) : Visit V (Progress V × Bool) := do
  Visit.checkCancelled
  match ← Visit.check (J.next ctx initial p b) with
  | none => return (p, false)
  | some input =>
    let p := p.enter b.id input
    let output ← A.runBlock ctx usual b input
    if p.exits.find? b.id = some output then return (p, false)
    else return (p.leave b.id output, true)

/-- Visits some blocks, and says whether what any of them leaves has changed. -/
def sweepBy (initial : State V) : List Block → Progress V → Visit V (Progress V × Bool)
  | [], p => return (p, false)
  | b :: bs, p => do
    let (p, changed) ← A.visitBlockBy J ctx usual initial b p
    let (p, changedLater) ← sweepBy initial bs p
    return (p, changed || changedLater)

/-- Sweeps until nothing changes, up to a limit. -/
def settleBy (initial : State V) (order : List Block) : (limit : Nat) → Progress V → Visit V (Progress V)
  | 0, _ => throw .endless
  | limit + 1, p => do
    let (p, changed) ← A.sweepBy J ctx usual initial order { p with passes := p.passes + 1 }
    if changed then settleBy initial order limit p else return p

/-- Visits the body until nothing changes. -/
def settleBodyBy : Visit V (Progress V) := do
  let initial ← Visit.check (A.initialState ctx)
  A.settleBy J ctx usual initial (sweepOrder ctx.graph) sweepLimit Progress.start

/-- Solves a body, with a given way to handle calls. -/
def solveBodyBy : Run V (Solution V) := fun ledger =>
  let notes := Notes.start (Resolver.start ctx.owner ctx.tracksUnknown)
  let (r, m) := (A.settleBodyBy J ctx usual).run ⟨State.empty, notes, ledger⟩
  (do
    let p ← r
    let returned ← (J.returned m.notes.returns.values).mapError Failure.violated
    return { A.solutionOf ctx p m.notes with returned }, m.ledger)

/-- Solves a body whose chain of calls may grow by `depth`. -/
def solveWithinBy : (depth : Nat) → Context V → Run V (Solution V)
  | 0, ctx => A.solveBodyBy J ctx (A.handleCall ctx none)
  | depth + 1, ctx => A.solveBodyBy J ctx (A.handleCall ctx (some (solveWithinBy depth)))

/-- Solves a body. The chain of calls may grow to the length that is configured. -/
def solveBy : Run V (Solution V) :=
  A.solveWithinBy J (ctx.config.calls.maxCallChain.toNat - ctx.callStack.length) ctx

variable {A ctx usual}

theorem visitBlockBy_joining (initial : State V) (b : Block) (p : Progress V) :
    A.visitBlockBy A.joining ctx usual initial b p = A.visitBlock ctx usual initial b p := rfl

theorem sweepBy_joining (initial : State V) (l : List Block) (p : Progress V) :
    A.sweepBy A.joining ctx usual initial l p = A.sweep ctx usual initial l p := by
  induction l generalizing p with
  | nil => rfl
  | cons b l ih => simp only [sweepBy, sweep, visitBlockBy_joining, ih]

theorem settleBy_joining (initial : State V) (order : List Block) (limit : Nat) (p : Progress V) :
    A.settleBy A.joining ctx usual initial order limit p = A.settle ctx usual initial order limit p := by
  induction limit generalizing p with
  | zero => rfl
  | succ limit ih => simp only [settleBy, settle, sweepBy_joining, ih]

/-- Solving by what the analysis itself does is solving. -/
theorem solveBodyBy_joining : A.solveBodyBy A.joining ctx usual = A.solveBody ctx usual := by
  have body : A.settleBodyBy A.joining ctx usual = A.settleBody ctx usual := by
    simp only [settleBodyBy, settleBody, settleBy_joining]
  funext ledger
  unfold solveBodyBy solveBody
  rw [body]
  dsimp only
  rcases (A.settleBody ctx usual).run _ with ⟨e | p, m⟩
  · rfl
  · rfl

end Analysis

namespace Accord

variable (G : Accord V)

/-- Two runs do the same to a ledger and end as the accord says. -/
def Concludes (r r' : Run V α) (P : α → Prop) (ledger : Ledger V) : Prop :=
  ExceptT.run r' ledger = ExceptT.run r ledger ∧
    match ExceptT.run r ledger with
    | (.ok a, ledger') => G.ledger ledger' ∧ P a
    | (.error e, ledger') => G.failure e ledger'

/-- The states of a run so far are as the accord says. -/
structure Reaches (p : Progress V) : Prop where
  /-- At the starts of blocks. -/
  entries : ∀ b s, p.entries.find? b = some s → G.state s
  /-- At the ends of blocks. -/
  exits : ∀ b s, p.exits.find? b = some s → G.state s

/-- Joining states and values keeps what is said of them. -/
structure Joins (A : Analysis V) (ctx : Context V) [DecidableEq V] : Prop where
  /-- Before the first visit nothing is tracked. -/
  empty : G.state State.empty
  /-- The state that the body starts in. -/
  initial : G.Steps (A.initialState ctx) (A.initialState ctx)
  /-- States are merged. -/
  merge : ∀ s t, G.state s → G.state t → G.state (State.merge A.domain s t)
  /-- States are widened. -/
  widen : ∀ s t, G.state s → G.state t → G.state (State.widen A.domain s t)
  /-- Returned values are merged. -/
  returned : ∀ v w, G.value v → G.value w → G.value (A.domain.merge v w)
  /-- A body may not settle. -/
  endless : ∀ ledger, G.ledger ledger → G.failure .endless ledger

/-- A way to join comes to what the analysis does. -/
structure Joined (A : Analysis V) (J : Joining V) (ctx : Context V) [DecidableEq V] : Prop where
  /-- States where paths meet. -/
  next : ∀ initial p b, G.state initial → G.Reaches p → J.next ctx initial p b =
    .ok (p.nextEntry A.domain ctx.graph ctx.config.visitsBeforeWidening.toNat initial b)
  /-- Returned values. -/
  returned : ∀ l, (∀ v ∈ l, G.value v) → J.returned l = .ok (Analysis.returnedBy A.domain l)

variable {G} [DecidableEq V] {A B : Analysis V} {J : Joining V} {ctx : Context V} {usual usual' : Call V → Visit V V}
variable {initial : State V} {p : Progress V} {b : Block}

theorem joined_self (ctx : Context V) : G.Joined A A.joining ctx := ⟨fun _ _ _ _ _ => rfl, fun _ _ => rfl⟩

/-! ### The state that a block is visited in -/

/-- What is said of values is said of folds over an operation that keeps it. -/
theorem foldl_keeps {f : α → α → α} {P : α → Prop} (h : ∀ a b, P a → P b → P (f a b)) {l : List α} (hl : ∀ b ∈ l, P b)
    {a : α} (ha : P a) : P (l.foldl f a) :=
  List.foldlRecOn (motive := P) l f ha fun a ha b hb => h a b ha (hl b hb)

theorem state_of_inflow (K : G.Joins A ctx) (hinitial : G.state initial) (hp : G.Reaches p) {s : State V}
    (h : p.inflow A.domain ctx.graph initial b = some s) : G.state s := by
  cases hb : b.isEntry with
  | true =>
    rw [Progress.inflow_of_isEntry hb] at h
    exact Option.some.inj h ▸ hinitial
  | false =>
    rw [Progress.inflow_of_not_isEntry hb] at h
    have left : ∀ s ∈ (ctx.graph.predecessors b.id).filterMap p.exits.find?, G.state s := by
      intro s hs
      obtain ⟨i, -, hi⟩ := List.mem_filterMap.1 hs
      exact hp.exits i s hi
    cases hlist : (ctx.graph.predecessors b.id).filterMap p.exits.find? with
    | nil =>
      rw [hlist] at h
      cases h
    | cons t l =>
      rw [hlist] at h left
      obtain rfl := Option.some.inj h
      exact foldl_keeps K.merge (fun u hu => left u (List.mem_cons_of_mem _ hu)) (left t List.mem_cons_self)

theorem state_of_nextEntry (K : G.Joins A ctx) (hinitial : G.state initial) (hp : G.Reaches p) {n : Nat} {s : State V}
    (h : p.nextEntry A.domain ctx.graph n initial b = some s) : G.state s := by
  obtain ⟨input, hinput, hs⟩ := Progress.eq_of_nextEntry_eq_some h
  have good := state_of_inflow K hinitial hp hinput
  rcases hs with rfl | ⟨-, previous, hprevious, -, rfl⟩
  · exact good
  · exact K.widen previous input (hp.entries _ _ hprevious) good

/-! ### The loops -/

theorem visitBlockBy_agrees (H : G.Hooks A B ctx) (K : G.Joins A ctx) (same : G.Joined A J ctx)
    (usuals : G.Handles usual usual') (hinitial : G.state initial) (b : Block) (hp : G.Reaches p) :
    G.Agree (A.visitBlock ctx usual initial b p) ((A.over B).visitBlockBy J ctx usual' initial b p)
      fun r => G.Reaches r.1 := by
  unfold Analysis.visitBlock Analysis.visitBlockBy
  refine (agree_checkCancelled H.cancelled).bind fun _ _ => ?_
  rw [same.next initial p b hinitial hp]
  simp only [Visit.check, pure_bind]
  cases hnext : p.nextEntry A.domain ctx.graph ctx.config.visitsBeforeWidening.toNat initial b with
  | none => exact agree_pure hp
  | some input =>
    have hinput := state_of_nextEntry K hinitial hp hnext
    refine (runBlock_agrees H usuals b hinput).bind fun output houtput => ?_
    have entered : G.Reaches (p.enter b.id input) :=
      ⟨fun i s hs => FinMap.find?_insert_ind hs hinput hp.entries, hp.exits⟩
    split
    · exact agree_pure entered
    · exact agree_pure ⟨entered.entries, fun i s hs => FinMap.find?_insert_ind hs houtput hp.exits⟩

theorem sweepBy_agrees (H : G.Hooks A B ctx) (K : G.Joins A ctx) (same : G.Joined A J ctx)
    (usuals : G.Handles usual usual') (hinitial : G.state initial) (l : List Block) (hp : G.Reaches p) :
    G.Agree (A.sweep ctx usual initial l p) ((A.over B).sweepBy J ctx usual' initial l p) fun r => G.Reaches r.1 := by
  induction l generalizing p with
  | nil => exact agree_pure hp
  | cons b l ih =>
    refine (visitBlockBy_agrees H K same usuals hinitial b hp).bind fun r hr => ?_
    exact (ih hr).bind fun r' hr' => agree_pure hr'

theorem settleBy_agrees (H : G.Hooks A B ctx) (K : G.Joins A ctx) (same : G.Joined A J ctx)
    (usuals : G.Handles usual usual') (hinitial : G.state initial) (order : List Block) (limit : Nat) (hp : G.Reaches p) :
    G.Agree (A.settle ctx usual initial order limit p) ((A.over B).settleBy J ctx usual' initial order limit p)
      G.Reaches := by
  induction limit generalizing p with
  | zero => exact agree_throw K.endless
  | succ limit ih =>
    have counted : G.Reaches { p with passes := p.passes + 1 } := ⟨hp.entries, hp.exits⟩
    refine (sweepBy_agrees H K same usuals hinitial order counted).bind fun r hr => ?_
    obtain ⟨p', changed⟩ := r
    cases changed with
    | true => exact ih hr
    | false => exact agree_pure hr

/-! ### Solutions -/

omit [DecidableEq V] in
/-- The values at returns are as the accord says. -/
theorem Holds.value_of_mem {m : Machine V} (hm : G.Holds m) {v : V} (hv : v ∈ m.notes.returns.values) : G.value v := by
  obtain ⟨⟨op, w⟩, hw, rfl⟩ := List.mem_map.1 hv
  exact hm.returns op _ (FinMap.mem_entries.1 hw)

theorem solutionOf_lasts (K : G.Joins A ctx) {m : Machine V} (hm : G.Holds m) (hp : G.Reaches p) :
    (A.solutionOf ctx p m.notes).Lasts G.state G.value := by
  refine ⟨hp.entries, hp.exits, hm.before, fun v hv => ?_⟩
  have values : ∀ v ∈ m.notes.returns.values, G.value v := fun v hv => hm.value_of_mem hv
  simp only [Analysis.solutionOf] at hv
  cases hlist : m.notes.returns.values with
  | nil =>
    rw [hlist] at hv
    cases hv
  | cons w l =>
    rw [hlist] at hv values
    obtain rfl := Option.some.inj hv
    exact foldl_keeps K.returned (fun u hu => values u (List.mem_cons_of_mem _ hu)) (values w List.mem_cons_self)

theorem settleBodyBy_agrees (H : G.Hooks A B ctx) (K : G.Joins A ctx) (same : G.Joined A J ctx)
    (usuals : G.Handles usual usual') :
    G.Agree (A.settleBody ctx usual) ((A.over B).settleBodyBy J ctx usual') G.Reaches := by
  obtain ⟨-, ok, error⟩ := K.initial
  refine (agree_check ok error).bind fun initial hinitial => ?_
  refine settleBy_agrees H K same usuals hinitial _ _ ⟨fun b s hs => ?_, fun b s hs => ?_⟩
  · simp [Progress.start] at hs
  · simp [Progress.start] at hs

/-- Bodies are solved alike, if calls in them are handled alike. -/
theorem solveBodyBy_agrees (H : G.Hooks A B ctx) (K : G.Joins A ctx) (same : G.Joined A J ctx)
    (usuals : G.Handles usual usual') {ledger : Ledger V} (hledger : G.ledger ledger) :
    G.Concludes (A.solveBody ctx usual) ((A.over B).solveBodyBy J ctx usual')
      (fun sol => sol.Lasts G.state G.value ∧ sol.graph = ctx.graph) ledger := by
  have start : G.Holds ⟨State.empty, Notes.start (Resolver.start ctx.owner ctx.tracksUnknown), ledger⟩ :=
    ⟨K.empty, fun op s hs => by simp [Notes.start] at hs, fun op v hv => by simp [Notes.start] at hv, hledger⟩
  obtain ⟨alike, ends⟩ := settleBodyBy_agrees H K same usuals _ start
  unfold Concludes Analysis.solveBodyBy Analysis.solveBody
  simp only [ExceptT.run] at alike ends ⊢
  rw [alike]
  rcases hr : A.settleBody ctx usual ⟨State.empty, Notes.start (Resolver.start ctx.owner ctx.tracksUnknown), ledger⟩
    with ⟨e | p, m⟩
  · rw [hr] at ends
    exact ⟨rfl, ends⟩
  · rw [hr] at ends
    obtain ⟨hm, hp⟩ := ends
    refine ⟨?_, hm.ledger, solutionOf_lasts K hm hp, rfl⟩
    dsimp only
    rw [same.returned _ fun v hv => hm.value_of_mem hv]
    rfl

/-- The same of runs that join in the way of the analysis. -/
theorem solveBody_agrees (H : G.Hooks A B ctx) (K : G.Joins A ctx) (usuals : G.Handles usual usual') {ledger : Ledger V}
    (hledger : G.ledger ledger) :
    G.Concludes (A.solveBody ctx usual) ((A.over B).solveBody ctx usual')
      (fun sol => sol.Lasts G.state G.value ∧ sol.graph = ctx.graph) ledger := by
  rw [← Analysis.solveBodyBy_joining (A := A.over B)]
  exact solveBodyBy_agrees H K (joined_self ctx) usuals hledger

end Accord

end Dataflow
