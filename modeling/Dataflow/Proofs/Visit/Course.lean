import Dataflow.Proofs.Accord.Moments

/-!
# The course of a run

A run visits the operations of a body over and over, in the order of evaluation. Its course lists their turns: which
operation takes its own step, what it sees of its operands, and in which machine. A solution only keeps what the last of
these turns leave.

## The notions

* `Visit.Turn`: an operation takes its own step.
* `Analysis.turns`: the turns of operations, by a machine with a stack. What is seen of an operation waits there until its
  turn comes that it is an operand of.
* `Analysis.course`: the turns of a whole run, through all visits of blocks and all sweeps.

## What is proved

A visit of a tree takes the turns of the operations in it (`visit_along`): so what own steps establish, with the turns
before them, holds of visits. Loops join courses. So a relation of machines, and of how far the run has come, that holds
along all visits of blocks holds along the course of the run, and the solution is what is there at its end (`solve_along`,
`solve_keepsPace`).
-/

namespace Dataflow

namespace Visit

/-- It is an operation's turn: its operands were seen, and it takes its own step in the machine. -/
structure Turn (V : Type) where
  /-- The operation. -/
  op : Operation
  /-- What it sees of its operands. -/
  seen : List (Seen V)
  /-- The machine. -/
  machine : Machine V

variable {V α β : Type}

/-- What comes after a visit that succeeds; nothing comes after a failure. -/
def following (x : Visit V α) (m : Machine V) (f : α → Machine V → List β) : List β :=
  match ExceptT.run x m with
  | (.ok a, m') => f a m'
  | (.error _, _) => []

theorem following_of_ok {x : Visit V α} {m m' : Machine V} {a : α} (h : ExceptT.run x m = (.ok a, m'))
    (f : α → Machine V → List β) : following x m f = f a m' := by
  rw [following, h]

end Visit

/-- The machine when the value of an operation was noted. -/
def Machine.recorded {V : Type} (m : Machine V) (op : OperationId) (v : V) : Machine V :=
  { m with notes := { m.notes with values := m.notes.values.insert op v } }

namespace Analysis

variable {V : Type}

section Course

variable (A : Analysis V) (ctx : Context V) (usual : Call V → Visit V V)

/-! ### Turns -/

/-- An operation takes its own step, and its value is noted. This is what is seen of it then. -/
def act (op : Operation) (seen : List (Seen V)) : Visit V (Seen V) := do
  let v ← A.own ctx usual op seen
  Visit.recordValue op.id v
  return ⟨v, ← Visit.entityOf op.id⟩

/-- The turns of operations that are listed in the order of evaluation. -/
def turns : List Operation → List (Seen V) → Machine V → List (Visit.Turn V)
  | [], _, _ => []
  | op :: ops, stack, m =>
    let seen := (stack.take op.operands.length).reverse
    ⟨op, seen, m⟩ :: Visit.following (A.act ctx usual op seen) m fun s m' =>
      turns ops (s :: stack.drop op.operands.length) m'

/-- The turns in a visit of an operation. -/
def turnsOf (op : Operation) (m : Machine V) : List (Visit.Turn V) := A.turns ctx usual op.subtree [] m

/-- The turns in visits of operations that stand for themselves. -/
def turnsOfAll : List Operation → Machine V → List (Visit.Turn V)
  | [], _ => []
  | op :: ops, m => Visit.following (Visit.recordBefore op.id) m fun _ m =>
    A.turnsOf ctx usual op m ++ Visit.following (A.visit ctx usual op) m fun _ m' => turnsOfAll ops m'

/-- The turns in a visit of a block in a state. -/
def turnsOfBlock (b : Block) (input : State V) (m : Machine V) : List (Visit.Turn V) :=
  A.turnsOfAll ctx usual b.allOperations { m with state := input }

variable [DecidableEq V] (initial : State V)

/-- The turns in a visit of a block, if there is a new state for it. -/
def turnsOfVisit (b : Block) (p : Progress V) (m : Machine V) : List (Visit.Turn V) :=
  match p.nextEntry A.domain ctx.graph ctx.config.visitsBeforeWidening.toNat initial b with
  | none => []
  | some input => A.turnsOfBlock ctx usual b input m

/-- The turns in a sweep. -/
def turnsOfSweep : List Block → Progress V → Machine V → List (Visit.Turn V)
  | [], _, _ => []
  | b :: bs, p, m => A.turnsOfVisit ctx usual initial b p m ++
    Visit.following (A.visitBlock ctx usual initial b p) m fun r m' => turnsOfSweep bs r.1 m'

/-- The turns in sweeps until nothing changes. -/
def turnsOfSweeps (order : List Block) : (limit : Nat) → Progress V → Machine V → List (Visit.Turn V)
  | 0, _, _ => []
  | limit + 1, p, m =>
    let p := { p with passes := p.passes + 1 }
    A.turnsOfSweep ctx usual initial order p m ++
      Visit.following (A.sweep ctx usual initial order p) m fun r m' =>
        if r.2 then turnsOfSweeps order limit r.1 m' else []

omit initial usual

/-- The turns of a run over a body. -/
def course (ledger : Ledger V) : List (Visit.Turn V) :=
  match A.initialState ctx with
  | .ok initial => A.turnsOfSweeps ctx (A.usualIn ctx) initial (sweepOrder ctx.graph) sweepLimit Progress.start
      (startOf ctx ledger)
  | .error _ => []

end Course

variable {A : Analysis V} {ctx : Context V} {usual : Call V → Visit V V}

/-! ### Trees -/

/-- How operands were visited, one after the other, and the turns that were taken: `T` is what holds of the visit of an
operand and of its turns. -/
inductive TrailAlong (T : Operation → Machine V → V → Machine V → List (Visit.Turn V) → Prop) :
    List Operation → Machine V → List (Seen V) → Machine V → List (Visit.Turn V) → Prop
  /-- No operand is visited. -/
  | nil (m : Machine V) : TrailAlong T [] m [] m []
  /-- An operand is visited, and then the others. -/
  | cons {op : Operation} {ops : List Operation} {m m₁ m₂ : Machine V} {v : V} {seen : List (Seen V)} {c d : List (Visit.Turn V)}
      (first : T op m v m₁ c) (others : TrailAlong T ops m₁ seen m₂ d) :
      TrailAlong T (op :: ops) m (⟨v, m₁.notes.entities.find? op.id⟩ :: seen) m₂ (c ++ d)

/-- All operands were seen. -/
theorem Trail.length {T : Operation → Machine V → V → Machine V → Prop} {ops : List Operation} {m m' : Machine V}
    {seen : List (Seen V)} (h : Trail T ops m seen m') : seen.length = ops.length := by
  induction h with
  | nil => rfl
  | cons _ _ ih => rw [List.length_cons, List.length_cons, ih]

/-- The visit took these turns, and left what it saw on the stack. -/
def TookTurns (A : Analysis V) (ctx : Context V) (usual : Call V → Visit V V) (ops : List Operation) (m : Machine V)
    (seen : List (Seen V)) (m' : Machine V) (c : List (Visit.Turn V)) : Prop :=
  ∀ rest stack, A.turns ctx usual (Operation.subtrees ops ++ rest) stack m =
    c ++ A.turns ctx usual rest (seen.reverse ++ stack) m'

/-- Operands that were visited one after the other took their turns one after the other. -/
theorem exists_trailAlong {T : Operation → Machine V → V → Machine V → List (Visit.Turn V) → Prop} {ops : List Operation}
    {m m' : Machine V} {seen : List (Seen V)}
    (h : Trail (fun op m v m' => ∃ c, T op m v m' c ∧ TookTurns A ctx usual [op] m [⟨v, m'.notes.entities.find? op.id⟩] m' c)
      ops m seen m') : ∃ c, TrailAlong T ops m seen m' c ∧ TookTurns A ctx usual ops m seen m' c := by
  induction h with
  | nil m => exact ⟨[], .nil m, fun _ _ => rfl⟩
  | cons first _ ih =>
    obtain ⟨c, hc, took⟩ := first
    obtain ⟨d, hd, others⟩ := ih
    refine ⟨c ++ d, .cons hc hd, fun rest stack => ?_⟩
    rw [Operation.subtrees_cons, List.append_assoc, ← List.append_nil (Operation.subtree _), ← Operation.subtrees_nil,
      ← Operation.subtrees_cons, took, others]
    simp

/-- If an operation's own step, with the turns of the operations below it, establishes something of its visit whenever the
visits of its operands have established it, it holds of all visits. -/
theorem visit_along {T : Operation → Machine V → V → Machine V → List (Visit.Turn V) → Prop}
    (step : ∀ op m seen m₁ c, TrailAlong T op.operands m seen m₁ c → Visit.Ensures (A.own ctx usual op seen) m₁ fun v m₂ =>
      T op m v (m₂.recorded op.id v) (c ++ [⟨op, seen, m₁⟩]))
    (op : Operation) (m : Machine V) :
    Visit.Ensures (A.visit ctx usual op) m fun v m' => T op m v m' (A.turnsOf ctx usual op m) := by
  have spec : Visit.Ensures (A.visit ctx usual op) m fun v m' => ∃ c, T op m v m' c ∧
      TookTurns A ctx usual [op] m [⟨v, m'.notes.entities.find? op.id⟩] m' c := by
    refine visit_ensures (T := fun op m v m' => ∃ c, T op m v m' c ∧
      TookTurns A ctx usual [op] m [⟨v, m'.notes.entities.find? op.id⟩] m' c) (fun op m seen m₁ trail v m₂ run => ?_) op m
    have length := trail.length
    obtain ⟨c, along, took⟩ := exists_trailAlong trail
    have established : T op m v (m₂.recorded op.id v) (c ++ [⟨op, seen, m₁⟩]) := step op m seen m₁ c along v m₂ run
    refine ⟨_, established, fun rest stack => ?_⟩
    have acts : ExceptT.run (A.act ctx usual op seen) m₁ =
        (.ok ⟨v, m₂.notes.entities.find? op.id⟩, m₂.recorded op.id v) := by
      rw [act, Visit.run_bind, run]
      rfl
    have turn : A.turns ctx usual (op :: rest) (seen.reverse ++ stack) m₁ = ⟨op, seen, m₁⟩ ::
        A.turns ctx usual rest (⟨v, m₂.notes.entities.find? op.id⟩ :: stack) (m₂.recorded op.id v) := by
      rw [turns, ← length, ← List.length_reverse, List.take_left', List.drop_left', List.reverse_reverse]
      · exact congrArg _ (Visit.following_of_ok acts _)
      · rfl
      · rfl
    rw [Operation.subtrees_cons, Operation.subtrees_nil, List.append_nil, Operation.subtree_eq, List.append_assoc, took,
      List.append_assoc]
    exact congrArg _ turn
  refine spec.mono fun v m' ⟨c, hc, took⟩ => ?_
  have same : A.turnsOf ctx usual op m = c := by
    have := took [] []
    simpa [turns, turnsOf] using this
  rw [same]
  exact hc

theorem TrailAlong.joined {R : Machine V → List (Visit.Turn V) → Machine V → Prop} (refl : ∀ m, R m [] m)
    (trans : ∀ {m c m' d m''}, R m c m' → R m' d m'' → R m (c ++ d) m'') {ops : List Operation} {m m' : Machine V}
    {seen : List (Seen V)} {c : List (Visit.Turn V)} (h : TrailAlong (fun _ m _ m' c => R m c m') ops m seen m' c) : R m c m' := by
  induction h with
  | nil m => exact refl m
  | cons first _ ih => exact trans first ih

/-- What turns establish one after the other is established by visits. -/
theorem visit_turns {R : Machine V → List (Visit.Turn V) → Machine V → Prop} (refl : ∀ m, R m [] m)
    (trans : ∀ {m c m' d m''}, R m c m' → R m' d m'' → R m (c ++ d) m'')
    (turn : ∀ op seen m, Visit.Ensures (A.own ctx usual op seen) m fun v m' => R m [⟨op, seen, m⟩] (m'.recorded op.id v))
    (op : Operation) (m : Machine V) :
    Visit.Ensures (A.visit ctx usual op) m fun _ m' => R m (A.turnsOf ctx usual op m) m' := by
  refine visit_along (T := fun _ m _ m' c => R m c m') (fun op m seen m₁ c trail => ?_) op m
  exact (turn op seen m₁).mono fun v m₂ own => trans (trail.joined refl trans) own

/-! ### Loops -/

/-- A relation of machines, with the turns in between, that holds along visits: turns come one after the other, and what is
no turn keeps it. -/
structure KeepsPace (A : Analysis V) (ctx : Context V) (usual : Call V → Visit V V)
    (R : Machine V → List (Visit.Turn V) → Machine V → Prop) : Prop where
  refl : ∀ m, R m [] m
  trans : ∀ {m c m' d m''}, R m c m' → R m' d m'' → R m (c ++ d) m''
  /-- The state before an operation is noted. -/
  before : ∀ m b, R m [] { m with notes := { m.notes with before := b } }
  /-- Locals go out of scope. -/
  scope : ∀ locals m, Visit.Ensures (A.leaveScope locals) m fun _ m' => R m [] m'
  /-- An operation that stands for itself is visited. -/
  visit : ∀ op ∈ ctx.graph.operations, ∀ m, Visit.Ensures (A.visit ctx usual op) m fun _ m' =>
    R m (A.turnsOf ctx usual op m) m'

section Loops

variable {R : Machine V → List (Visit.Turn V) → Machine V → Prop}

theorem KeepsPace.statements (h : KeepsPace A ctx usual R) {ops : List Operation} (hops : ∀ op ∈ ops, op ∈ ctx.graph.operations)
    (m : Machine V) : Visit.Ensures (ops.forM (A.statement ctx usual)) m fun _ m' =>
      R m (A.turnsOfAll ctx usual ops m) m' := by
  induction ops generalizing m with
  | nil => exact (Visit.ensures_forM_nil _ _ _).2 (h.refl m)
  | cons op ops ih =>
    rw [Visit.ensures_forM_cons, statement, Visit.ensures_bind, Visit.ensures_recordBefore, Visit.ensures_bind]
    intro v m₁ run
    refine (Visit.ensures_pure _ _ _).2 ((ih (fun o ho => hops o (List.mem_cons_of_mem _ ho)) m₁).mono fun _ m₂ rest => ?_)
    have noted : ExceptT.run (Visit.recordBefore op.id) m =
        (.ok (), { m with notes := { m.notes with before := m.notes.before.insert op.id m.state } }) := rfl
    rw [turnsOfAll, Visit.following_of_ok noted, Visit.following_of_ok run]
    have visited := h.visit op (hops op List.mem_cons_self) _ v m₁ run
    have all := h.trans (h.before m (m.notes.before.insert op.id m.state)) (h.trans visited rest)
    exact all

theorem KeepsPace.runBlock (h : KeepsPace A ctx usual R) {b : Block} (hb : b ∈ sweepOrder ctx.graph) (input : State V)
    (m : Machine V) : Visit.Ensures (A.runBlock ctx usual b input) m fun out m' =>
      out = m'.state ∧ R { m with state := input } (A.turnsOfBlock ctx usual b input m) m' := by
  have ops : ∀ op ∈ b.allOperations, op ∈ ctx.graph.operations := fun op hop =>
    List.mem_flatMap.2 ⟨b, mem_blocks_of_mem_sweepOrder hb, hop⟩
  unfold Analysis.runBlock
  rw [Visit.ensures_bind, Visit.ensures_setState, Visit.ensures_bind]
  refine (h.statements ops _).mono fun _ m₁ visited => ?_
  rw [Visit.ensures_bind]
  refine (h.scope _ m₁).mono fun _ m₂ left => ?_
  rw [Visit.ensures_state]
  refine ⟨rfl, ?_⟩
  rw [turnsOfBlock, ← List.append_nil (A.turnsOfAll ctx usual b.allOperations _)]
  exact h.trans visited left

variable [DecidableEq V] {initial : State V}

variable {S : Progress V → Machine V → List (Visit.Turn V) → Progress V → Machine V → Prop} (refl : ∀ p m, S p m [] p m)
variable (trans : ∀ {p m c p' m' d p'' m''}, S p m c p' m' → S p' m' d p'' m'' → S p m (c ++ d) p'' m'')
variable (sweep : ∀ p m, S p m [] { p with passes := p.passes + 1 } m)

omit refl trans sweep in
/-- A visit of a block, from the visits of its operations. -/
theorem visitBlock_along {b : Block} {p : Progress V} {m : Machine V} (stays : S p m [] p m)
    (run : ∀ input, p.nextEntry A.domain ctx.graph ctx.config.visitsBeforeWidening.toNat initial b = some input →
      Visit.Ensures (A.runBlock ctx usual b input) m fun out m' =>
        S p m (A.turnsOfBlock ctx usual b input m) (p.enter b.id input) m' ∧
          S p m (A.turnsOfBlock ctx usual b input m) ((p.enter b.id input).leave b.id out) m') :
    Visit.Ensures (A.visitBlock ctx usual initial b p) m fun r m' =>
      S p m (A.turnsOfVisit ctx usual initial b p m) r.1 m' := by
  unfold visitBlock turnsOfVisit
  rw [Visit.ensures_bind, Visit.ensures_checkCancelled]
  intro _
  cases next : p.nextEntry A.domain ctx.graph ctx.config.visitsBeforeWidening.toNat initial b with
  | none => exact (Visit.ensures_pure _ _ _).2 stays
  | some input =>
    dsimp only
    rw [Visit.ensures_bind]
    refine (run input next).mono fun out m' visited => ?_
    split
    · exact (Visit.ensures_pure _ _ _).2 visited.1
    · exact (Visit.ensures_pure _ _ _).2 visited.2

include refl trans in
theorem sweep_along {l : List Block} (block : ∀ b ∈ l, ∀ p m, Visit.Ensures (A.visitBlock ctx usual initial b p) m
      fun r m' => S p m (A.turnsOfVisit ctx usual initial b p m) r.1 m') (p : Progress V) (m : Machine V) :
    Visit.Ensures (A.sweep ctx usual initial l p) m fun r m' => S p m (A.turnsOfSweep ctx usual initial l p m) r.1 m' := by
  induction l generalizing p m with
  | nil => exact (Visit.ensures_pure _ _ _).2 (refl p m)
  | cons b l ih =>
    rw [Analysis.sweep, Visit.ensures_bind]
    intro r m₁ run
    have first := block b List.mem_cons_self p m r m₁ run
    rw [turnsOfSweep, Visit.following_of_ok run]
    obtain ⟨p₁, changed⟩ := r
    dsimp only
    rw [Visit.ensures_bind]
    refine (ih (fun c hc => block c (List.mem_cons_of_mem _ hc)) p₁ m₁).mono fun r m₂ rest => ?_
    exact (Visit.ensures_pure _ _ _).2 (trans first rest)

include refl trans sweep in
theorem settle_along {order : List Block} (block : ∀ b ∈ order, ∀ p m, Visit.Ensures (A.visitBlock ctx usual initial b p) m
      fun r m' => S p m (A.turnsOfVisit ctx usual initial b p m) r.1 m') (limit : Nat) (p : Progress V) (m : Machine V) :
    Visit.Ensures (A.settle ctx usual initial order limit p) m fun p' m' =>
      S p m (A.turnsOfSweeps ctx usual initial order limit p m) p' m' := by
  induction limit generalizing p m with
  | zero => exact Visit.ensures_throw _ _ _
  | succ limit ih =>
    rw [settle, Visit.ensures_bind]
    intro r m₁ run
    have first := sweep_along refl trans block _ m r m₁ run
    rw [turnsOfSweeps]
    dsimp only
    rw [Visit.following_of_ok run]
    obtain ⟨p₁, changed⟩ := r
    have begun := trans (sweep p m) first
    cases changed with
    | true => exact (ih p₁ m₁).mono fun p' m' rest => trans begun rest
    | false =>
      refine (Visit.ensures_pure p₁ m₁ _).2 ?_
      simpa using begun

include refl trans sweep in
/-- A run that succeeds goes along its course, and the solution is what is there at its end. -/
theorem solve_along {ledger ledger' : Ledger V} {sol : Solution V}
    (block : ∀ initial, A.initialState ctx = .ok initial → ∀ b ∈ sweepOrder ctx.graph, ∀ p m,
      Visit.Ensures (A.visitBlock ctx (A.usualIn ctx) initial b p) m fun r m' =>
        S p m (A.turnsOfVisit ctx (A.usualIn ctx) initial b p m) r.1 m')
    (h : (A.solve ctx).run ledger = (.ok sol, ledger')) :
    ∃ p m, S Progress.start (startOf ctx ledger) (A.course ctx ledger) p m ∧ sol = A.solutionOf ctx p m.notes ∧
      ledger' = m.ledger := by
  rw [solve_eq_solveBody] at h
  obtain ⟨p, m, run, hsol, hledger⟩ := run_solveBody_eq_ok.1 h
  have spec : Visit.Ensures (A.settleBody ctx (A.usualIn ctx)) (startOf ctx ledger) fun p m =>
      S Progress.start (startOf ctx ledger) (A.course ctx ledger) p m := by
    unfold settleBody course
    rw [Visit.ensures_bind, Visit.ensures_check]
    intro initial hinitial
    rw [hinitial]
    exact settle_along refl trans sweep (block initial hinitial) _ _ _
  exact ⟨p, m, spec p m run, hsol, hledger⟩

omit refl trans sweep in
/-- What holds along visits, whatever the state at hand is, holds along the course of a run. -/
theorem solve_keepsPace (pace : KeepsPace A ctx (A.usualIn ctx) R) (state : ∀ m s, R m [] { m with state := s })
    {ledger ledger' : Ledger V} {sol : Solution V} (h : (A.solve ctx).run ledger = (.ok sol, ledger')) :
    ∃ p m, R (startOf ctx ledger) (A.course ctx ledger) m ∧ sol = A.solutionOf ctx p m.notes ∧ ledger' = m.ledger := by
  refine solve_along (S := fun _ m c _ m' => R m c m') (fun _ => pace.refl) pace.trans (fun _ => pace.refl) ?_ h
  intro initial _ b hb p m
  refine visitBlock_along (S := fun _ m c _ m' => R m c m') (pace.refl m) fun input _ => (pace.runBlock hb input m).mono fun out m' visited => ?_
  have both := pace.trans (state m input) visited.2
  exact ⟨both, both⟩

end Loops

end Analysis

end Dataflow
