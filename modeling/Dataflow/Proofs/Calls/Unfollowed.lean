import Dataflow.Proofs.Accord.Calls
import Dataflow.Proofs.Congruence.Walk

/-!
# Runs that follow no calls, and runs that nobody cancels

The bodies of other methods are looked up to follow calls, and for nothing else. The work is cancelled by
filters, and by nothing else.

## What is proved

A run that follows no calls comes to the same whatever bodies there are (`Analysis.solve_bodies`). A run that may not
follow calls differs from one that may only in how each call is handled (`Analysis.solve_handling_none`).
A run whose filter never cancels leaves the work running (`Analysis.running_solve`).
-/

namespace Dataflow

variable {V : Type}

/-- The context with another way to handle calls. -/
def Context.handling (ctx : Context V) (handling : CallHandling) : Context V :=
  { ctx with config := { ctx.config with calls := { ctx.config.calls with handling } } }

namespace Analysis

/-! ### Bodies of other methods -/

/-- The hooks of the analysis do not look at the bodies of other methods, nor at the configuration. -/
def Inward (A : Analysis V) : Prop :=
  ∀ bodies (setting : Config → Config), A.Ignores (fun ctx => { ctx with bodies, config := setting ctx.config }) fun _ => True

theorem pointsTo_inward : pointsTo.Inward := fun _ _ =>
  ⟨fun _ => rfl, fun _ => rfl, fun _ => rfl, fun _ _ _ _ => rfl, fun _ _ _ _ => rfl, fun _ _ _ _ _ _ => rfl, fun _ => rfl⟩

theorem copies_inward : copies.Inward := fun _ _ =>
  ⟨fun _ => rfl, fun _ => rfl, fun _ => rfl, fun _ _ _ _ => rfl, fun _ _ _ _ => rfl, fun _ _ _ _ _ _ => rfl, fun _ => rfl⟩

theorem contents_inward : contents.Inward := fun _ _ =>
  ⟨fun _ => rfl, fun _ => rfl, fun _ => rfl, fun _ _ _ _ => rfl, fun _ _ _ _ => rfl, fun _ _ _ _ _ _ => rfl, fun _ => rfl⟩

theorem taint_inward (rules : TaintRules) : (taint rules).Inward := fun _ _ =>
  ⟨fun _ => rfl, fun _ => rfl, fun _ => rfl, fun _ _ _ _ => rfl, fun _ _ _ _ => rfl, fun _ _ _ _ _ _ => rfl, fun _ => rfl⟩

variable {A : Analysis V} {ctx : Context V} [DecidableEq V]

/-- A call that is not followed is opaque. -/
theorem handleCall_of_none (h : ctx.config.calls.handling = .none)
    (deeper : Option (Context V → Run V (Solution V))) : A.handleCall ctx deeper = A.callOpaquely ctx.config := by
  funext call
  unfold handleCall
  rw [if_pos h]

variable (A ctx) in
theorem solve_eq_of_none (h : ctx.config.calls.handling = .none) :
    A.solve ctx = A.solveBody ctx (A.callOpaquely ctx.config) := by
  obtain ⟨deeper, eq, -⟩ := exists_solveBody A ctx
  rw [eq, handleCall_of_none h]

variable (ctx) in
/-- A run that follows no calls comes to the same whatever bodies there are. -/
theorem solve_bodies (H : A.Inward) (bodies : Symbol → Option Graph) (h : ctx.config.calls.handling = .none) :
    A.solve { ctx with bodies } = A.solve ctx := by
  rw [solve_eq_of_none A ctx h, solve_eq_of_none A { ctx with bodies } h]
  exact solveBody_congr ⟨rfl, rfl, rfl, rfl⟩ fun _ _ seen => (H bodies id).own trivial seen

variable (ctx) in
/-- A run that may follow no calls is one of the body in which all calls are opaque. -/
theorem solve_handling_none (H : A.Inward) :
    A.solve (ctx.handling .none) = A.solveBody ctx (A.callOpaquely ctx.config) := by
  have opaquely : A.callOpaquely (ctx.handling .none).config = A.callOpaquely ctx.config := rfl
  have own (op : Operation) (seen : List (Seen V)) :
      A.own (ctx.handling .none) (A.callOpaquely ctx.config) op seen = A.own ctx (A.callOpaquely ctx.config) op seen :=
    (H ctx.bodies fun config => { config with calls := { config.calls with handling := .none } }).own trivial seen
  rw [solve_eq_of_none A (ctx.handling .none) rfl, opaquely]
  have alike : ctx.Alike (ctx.handling .none) := ⟨rfl, rfl, rfl, rfl⟩
  exact (solveBody_congr alike fun op _ seen => (own op seen).symm).symm

end Analysis

/-! ### Cancellation -/

/-- No filter cancels the work. -/
def Config.NeverCancels (config : Config) : Prop :=
  ∀ f, config.filter = some f → ∀ method, (f.judge method).cancel = false

/-- Visits that do not cancel the work. -/
def Congruence.running : Congruence V := .keeping fun l => l.cancelled = false

namespace Analysis

variable {A : Analysis V} {ctx : Context V}

/-- Looking for the solution of a callee does not cancel the work if solving the callee does not. -/
theorem running_solution? {filed : Ledger V → Option (Solution V)} {file : Solution V → Ledger V → Ledger V} {callee : Graph}
    {solve : Run V (Solution V)} (hfile : ∀ sol l, (file sol l).cancelled = l.cancelled)
    (hsolve : ∀ l : Ledger V, l.cancelled = false → (solve.run l).2.cancelled = false) :
    Congruence.running.Rel (solution? ctx filed file callee solve) (solution? ctx filed file callee solve) := by
  intro m hm
  rw [Accord.run_solution]
  split
  · exact hm
  · split
    · exact hm
    · exact hm
    · rename_i ledger hreserve
      have claimed : ledger.cancelled = false := (Ledger.cancelled_of_reserve? hreserve).trans hm
      have after := hsolve ledger claimed
      split
      · rename_i hrun
        rw [hrun] at after
        exact (hfile _ _).trans after
      · rename_i hrun
        rwa [hrun] at after

variable [DecidableEq V]

/-- A run whose filter never cancels does not cancel the work, at any depth of calls. -/
theorem running_solveWithin (H : A.Apart) (depth : Nat) (ctx : Context V) (calm : ctx.config.NeverCancels) (l : Ledger V)
    (hl : l.cancelled = false) : ((A.solveWithin depth ctx).run l).2.cancelled = false := by
  have accepts (ctx : Context V) (calm : ctx.config.NeverCancels) (method : Symbol) :
      Congruence.running.Rel (accepts ctx method) (accepts ctx method) :=
    Congruence.running.apart (accepts_apart fun f hf => calm f hf method)
  induction depth generalizing ctx l with
  | zero =>
    refine Congruence.keeping_solveBody (I := fun l => l.cancelled = false) H (fun call _ => ?_) hl
    rw [handleCall_eq]
    exact Congruence.running.handleCallBy (accepts ctx calm _) .none
  | succ depth ih =>
    refine Congruence.keeping_solveBody (I := fun l => l.cancelled = false) H (fun call _ => ?_) hl
    rw [handleCall_eq]
    refine Congruence.running.handleCallBy (accepts ctx calm _) (.some fun callee _ _ _ => ?_)
    refine Congruence.running.bind Congruence.running.checkCancelled fun _ => ?_
    unfold calleeSolution?
    dsimp only
    split
    · refine Congruence.running.bind_apart .state fun s => running_solution? (fun _ _ => rfl) fun l hl => ?_
      exact ih (ctx.forCallee callee _ _) calm l hl
    · exact running_solution? (fun _ _ => rfl) fun l hl => ih (ctx.forCallee callee _ _) calm l hl

theorem running_solve (H : A.Apart) (calm : ctx.config.NeverCancels) {l : Ledger V} (hl : l.cancelled = false) :
    ((A.solve ctx).run l).2.cancelled = false :=
  running_solveWithin H _ ctx calm l hl

end Analysis

end Dataflow
