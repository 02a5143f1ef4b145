import Dataflow.Proofs.Calls.Memo

/-!
# Methods on their own

One summary of a method serves all its calls. It is made at the first call, by a run that knows the chain of calls
that led there and what was on file then. What the summary is to be has nothing to do with either.

## The notions

* `Setting`: methods of a program, and what other analyses found out about each of them.
* `Analysis.solveGiven`: the solver, but what callees come to is given.
* `Setting.Sums`: what a method of the setting comes to on its own, as its callees come to something on their own.

## What is proved

A method comes to one thing only on its own (`Setting.Sums.unique`), so that there is a function that says what
(`Setting.known`).
-/

namespace Dataflow

variable {V : Type}

/-- What other analyses found out about the body. -/
def Context.findings (ctx : Context V) : Option (Solution PointsTo) × Option (Solution CopyClass) := (ctx.pointsTo, ctx.copies)

/-- Methods of a program that are to be analysed in some way, and what other analyses found out about them. -/
structure Setting where
  /-- The bodies that are available. -/
  bodies : Symbol → Option Graph
  /-- How analyses are to be run. -/
  config : Config
  /-- Whether a method belongs to the setting. -/
  belongs : Symbol → Bool
  /-- What other analyses found out about a method. -/
  findings : Symbol → Option (Solution PointsTo) × Option (Solution CopyClass)
  /-- Findings can be compared with those. -/
  decideFindings : ∀ method found, Decidable (found = findings method)

instance (S : Setting) (method : Symbol) (found : Option (Solution PointsTo) × Option (Solution CopyClass)) :
    Decidable (found = S.findings method) := S.decideFindings method found

/-- What a method comes to. -/
structure Summary (V : Type) where
  /-- The solution of its body. -/
  solution : Solution V
  /-- Whether the work is cancelled on the way. -/
  cancels : Bool

namespace Analysis

variable [DecidableEq V] (A : Analysis V)

/-- The solution of a callee, if it is given. -/
def givenSolution? (known : Symbol → Option (Summary V)) (call : Call V) : Visit V (Option (Solution V)) :=
  match known call.method with
  | some o => do
    Visit.modifyLedger fun l => l.withCancelled (l.cancelled || o.cancels)
    return some o.solution
  | none => throw (.missingGraph call.method)

/-- Solves a body. What callees come to is given. -/
def solveGiven (known : Symbol → Option (Summary V)) (ctx : Context V) : Run V (Solution V) :=
  A.solveBody ctx (A.handleCallBy ctx (some fun call _ => givenSolution? known call))

variable {A} {known known' : Symbol → Option (Summary V)} {ctx : Context V}

omit [DecidableEq V] in
theorem run_givenSolution {call : Call V} {o : Summary V} (h : known call.method = some o) (m : Machine V) :
    ExceptT.run (givenSolution? known call) m =
      (.ok (some o.solution), { m with ledger := m.ledger.withCancelled (m.ledger.cancelled || o.cancels) }) := by
  rw [givenSolution?, h]
  rfl

end Analysis

/-! ### Visits that agree -/

/-- Visits that do the same if both of them succeed. -/
def Congruence.agreeing (V : Type) : Congruence V where
  Rel x y := ∀ m a m', ExceptT.run x m = (.ok a, m') → ∀ b m'', ExceptT.run y m = (.ok b, m'') → a = b ∧ m' = m''
  apart _ m a m' h b m'' h' := by
    rw [h] at h'
    cases h'
    exact ⟨rfl, rfl⟩
  bind hx hf m a m' h b m'' h' := by
    obtain ⟨a₁, m₁, hx₁, hf₁⟩ := Visit.run_bind_eq_ok.1 h
    obtain ⟨a₂, m₂, hx₂, hf₂⟩ := Visit.run_bind_eq_ok.1 h'
    obtain ⟨rfl, rfl⟩ := hx m a₁ m₁ hx₁ a₂ m₂ hx₂
    exact hf a₁ m₁ a m' hf₁ b m'' hf₂
  checkCancelled m a m' h b m'' h' := by
    rw [h] at h'
    cases h'
    exact ⟨rfl, rfl⟩

namespace Analysis

variable [DecidableEq V] {A : Analysis V} {known known' : Symbol → Option (Summary V)} {ctx : Context V}

/-- If what is given agrees as far as it goes, then runs over a body agree. -/
theorem solveGiven_agree (H : A.Apart) (agree : ∀ method o o', known method = some o → known' method = some o' → o = o')
    {l l' l'' : Ledger V} {sol sol' : Solution V} (h : ExceptT.run (A.solveGiven known ctx) l = (.ok sol, l'))
    (h' : ExceptT.run (A.solveGiven known' ctx) l = (.ok sol', l'')) : sol = sol' ∧ l' = l'' := by
  obtain ⟨p, m, run, rfl, rfl⟩ := run_solveBody_eq_ok.1 h
  obtain ⟨p', m', run', rfl, rfl⟩ := run_solveBody_eq_ok.1 h'
  have self {α : Type} (x : Visit V α) : (Congruence.agreeing V).Rel x x := fun m a m' h b m'' h' => by
    rw [h] at h'
    cases h'
    exact ⟨rfl, rfl⟩
  have given (call : Call V) : (Congruence.agreeing V).Rel (givenSolution? known call) (givenSolution? known' call) := by
    intro m a m' h b m'' h'
    unfold givenSolution? at h h'
    cases hk : known call.method with
    | none =>
      rw [hk] at h
      cases h
    | some o =>
      cases hk' : known' call.method with
      | none =>
        rw [hk'] at h'
        cases h'
      | some o' =>
        obtain rfl := agree _ _ _ hk hk'
        rw [hk] at h
        rw [hk'] at h'
        exact self _ m a m' h b m'' h'
  have calls (call : Call V) : (Congruence.agreeing V).Rel
      (A.handleCallBy ctx (some fun call _ => givenSolution? known call) call)
      (A.handleCallBy ctx (some fun call _ => givenSolution? known' call) call) :=
    (Congruence.agreeing V).handleCallBy (self _) (.some fun _ _ _ _ =>
      (Congruence.agreeing V).bind (Congruence.agreeing V).checkCancelled fun _ => given call)
  have bodies := (Congruence.agreeing V).settleBody H fun call (_ : ctx.graph.Calls call) => calls call
  obtain ⟨rfl, rfl⟩ := bodies (startOf ctx l) p m run p' m' run'
  exact ⟨rfl, rfl⟩

end Analysis

/-! ### What methods come to on their own -/

namespace Setting

variable (S : Setting)

/-- The context of a method on its own. -/
def context (method : Symbol) (graph : Graph) : Context V where
  graph
  config := S.config
  bodies := S.bodies
  pointsTo := (S.findings method).1
  copies := (S.findings method).2
  callStack := []
  entry := none

variable [DecidableEq V] (A : Analysis V)

/-- What a method comes to on its own. -/
inductive Sums : Symbol → Summary V → Prop where
  /-- The body is solved, with callees that come to something on their own. -/
  | intro {method : Symbol} {g : Graph} {o : Summary V} (body : S.bodies method = some g) (known : Symbol → Option (Summary V))
      (callees : ∀ callee o', known callee = some o' → Sums callee o')
      (run : ∀ l : Ledger V, l.cancelled = false →
        ExceptT.run (A.solveGiven known (S.context method g)) l = (.ok o.solution, l.withCancelled o.cancels)) :
      Sums method o

variable {S A}

/-- A method comes to one thing only: by induction on what its callees come to. -/
theorem Sums.unique (H : A.Apart) {method : Symbol} {o o' : Summary V} (h : S.Sums A method o) (h' : S.Sums A method o') :
    o = o' := by
  induction h generalizing o' with
  | intro body known callees run ih =>
    obtain ⟨body', known', callees', run'⟩ := h'
    obtain rfl := Option.some.inj (body.symm.trans body')
    obtain ⟨solution, ledger⟩ := Analysis.solveGiven_agree H
      (fun callee o o' hk hk' => ih callee o hk (callees' callee o' hk')) (run (Ledger.start false) rfl)
      (run' (Ledger.start false) rfl)
    have cancels := congrArg Ledger.cancelled ledger
    cases o'
    cases solution
    cases cancels
    rfl

variable (S A)

open Classical in
/-- What methods come to on their own. -/
noncomputable def known (method : Symbol) : Option (Summary V) :=
  if h : ∃ o, S.Sums A method o then some h.choose else none

variable {S A}

theorem known_eq_some (H : A.Apart) {method : Symbol} {o : Summary V} : S.known A method = some o ↔ S.Sums A method o := by
  unfold known
  split
  · rename_i h
    constructor
    · rintro ⟨⟩
      exact h.choose_spec
    · intro sums
      rw [h.choose_spec.unique H sums]
  · rename_i h
    exact ⟨fun hk => (by cases hk), fun sums => absurd ⟨o, sums⟩ h⟩

end Setting

end Dataflow
