import Dataflow.Proofs.Calls.Afresh
import Dataflow.Proofs.Calls.Unfollowed
import Dataflow.Proofs.Visit.Frame

/-!
# Analyses whose values mean nothing in other methods

The copy analysis follows calls, but what a callee finds out means nothing to its caller. A call into a body
leaves something on the ledger, the solution of the callee, and the hits in it; to the state it does what an opaque call
does. So the run is in step with the run that follows no calls, from which these are erased.

## The notions

* `Replacement.erased`: the ledger, the solutions of callees and the hits are erased.
* `Likeness.erasing`: a visit comes to what another one comes to if these are erased, if it succeeds at all.
* `Solution.SameFindings`: two solutions say the same about the body itself.

## What is proved

The copy analysis finds out the same about a body however calls are handled (`Analysis.copies_handling`).
-/

namespace Dataflow

variable {V : Type}

/-- What calls leave is erased, and the work goes on. -/
def Replacement.erased : Replacement V := ⟨fun _ => Ledger.start false, fun _ => FinMap.empty, fun _ => HitLog.empty⟩

namespace Visit

variable {α : Type}

/-- What the visit does is erased. -/
def LeavesNothing (x : Visit V α) : Prop :=
  ∀ m a m', ExceptT.run x m = (.ok a, m') → Replacement.erased.put m' = Replacement.erased.put m

theorem LeavesNothing.frame : Frame fun m m' : Machine V => Replacement.erased.put m' = Replacement.erased.put m where
  refl _ := rfl
  trans h h' := h'.trans h
  ledger _ _ := rfl
  hits _ _ := rfl
  callees _ _ := rfl

end Visit

/-! ### In step with opaque calls -/

/-- If the first visit succeeds, then the second one comes to the same with what calls leave erased. -/
def Likeness.erasing (V : Type) : Likeness V where
  Rel x y := ∀ m a m', ExceptT.run x m = (.ok a, m') →
    ExceptT.run y (Replacement.erased.put m) = (.ok a, Replacement.erased.put m')
  Hidden φ := φ = Replacement.erased
  blind hx m a m' h := by rw [hx _ rfl, h]
  bind hx hf m b m'' h := by
    obtain ⟨a, m', h₁, h₂⟩ := Visit.run_bind_eq_ok.1 h
    exact Visit.run_bind_eq_ok.2 ⟨a, _, hx m a m' h₁, hf a m' b m'' h₂⟩
  checkCancelled m a m' h := by
    rw [Visit.run_checkCancelled_eq] at h ⊢
    obtain rfl := (Prod.mk.inj h).2
    rfl
  withdraw φ hφ op hits := by
    subst hφ
    rfl

/-- What leaves nothing may come first. -/
theorem Likeness.erasing_bind_left {α β : Type} {x : Visit V α} {f : α → Visit V β} {y : Visit V β}
    (hx : x.LeavesNothing) (h : ∀ a, (erasing V).Rel (f a) y) : (erasing V).Rel (x >>= f) y := by
  intro m b m'' run
  obtain ⟨a, m', h₁, h₂⟩ := Visit.run_bind_eq_ok.1 run
  rw [← hx m a m' h₁]
  exact h a m' b m'' h₂

namespace Solution

/-- The solutions say the same about the body itself. -/
structure SameFindings (s s' : Solution V) : Prop where
  /-- The states at the start of blocks. -/
  entries : s.entries = s'.entries
  /-- The states at the end of blocks. -/
  exits : s.exits = s'.exits
  /-- How often blocks were visited. -/
  visits : s.visits = s'.visits
  /-- The values of operations. -/
  values : s.values = s'.values
  /-- The states before operations. -/
  before : s.before = s'.before
  /-- The entities that references stand for. -/
  entities : s.entities = s'.entities
  /-- What the method returns. -/
  returned : s.returned = s'.returned
  /-- How often the blocks were swept. -/
  passes : s.passes = s'.passes

theorem SameFindings.symm {s s' : Solution V} (h : s.SameFindings s') : s'.SameFindings s :=
  ⟨h.entries.symm, h.exits.symm, h.visits.symm, h.values.symm, h.before.symm, h.entities.symm, h.returned.symm,
    h.passes.symm⟩

theorem SameFindings.trans {s s' s'' : Solution V} (h : s.SameFindings s') (h' : s'.SameFindings s'') :
    s.SameFindings s'' :=
  ⟨h.entries.trans h'.entries, h.exits.trans h'.exits, h.visits.trans h'.visits, h.values.trans h'.values,
    h.before.trans h'.before, h.entities.trans h'.entities, h.returned.trans h'.returned, h.passes.trans h'.passes⟩

end Solution

namespace Analysis

variable {A : Analysis V} {ctx : Context V} [DecidableEq V]

/-- A call that means nothing to the caller is in step with an opaque one, however it is handled. -/
theorem handleCall_erasing (sealed : A.crossesCalls = false) (deeper : Option (Context V → Run V (Solution V)))
    (call : Call V) : (Likeness.erasing V).Rel (A.handleCall ctx deeper call) (A.callOpaquely ctx.config call) := by
  have opaquely : (Likeness.erasing V).Rel (A.callOpaquely ctx.config call) (A.callOpaquely ctx.config call) :=
    (Likeness.erasing V).blind (callOpaquely_blind _ _)
  have frame := Visit.LeavesNothing.frame (V := V)
  unfold handleCall
  split
  · exact opaquely
  · refine Likeness.erasing_bind_left (accepts_relates frame _) fun accepted => ?_
    split
    · exact opaquely
    · split
      · unfold follow
        refine Likeness.erasing_bind_left frame.checkCancelled fun _ => ?_
        refine Likeness.erasing_bind_left (calleeSolution?_relates frame _ _ _) fun found => ?_
        cases found with
        | none => exact opaquely
        | some sol =>
          refine Likeness.erasing_bind_left (frame.modifyHits _) fun _ => ?_
          refine Likeness.erasing_bind_left (frame.modifyCallees _) fun _ => ?_
          rw [if_neg (by simp [sealed])]
          exact opaquely
      · exact opaquely

/-! ### Runs -/

/-- The run that follows no calls finds out what any run does, if values mean nothing in other methods. -/
theorem solve_ok_handling_none (sealed : A.crossesCalls = false) (H : A.Blind fun φ => φ = Replacement.erased)
    (I : A.Inward) {l l' : Ledger V} {sol : Solution V} (run : (A.solve ctx).run l = (.ok sol, l')) :
    ∃ sol', ((A.solve (ctx.handling .none)).run (Ledger.start false)) = (.ok sol', Ledger.start false) ∧
      sol.SameFindings sol' := by
  obtain ⟨deeper, eq, -⟩ := exists_solveBody A ctx
  have body : (Likeness.erasing V).Rel (A.settleBody ctx (A.handleCall ctx deeper))
      (A.settleBody ctx (A.callOpaquely ctx.config)) :=
    (Likeness.erasing V).settleBody H fun call _ => handleCall_erasing sealed deeper call
  rw [eq] at run
  obtain ⟨p, m, visited, rfl, -⟩ := run_solveBody_eq_ok.1 run
  have erased : Replacement.erased.put (startOf ctx l) = startOf ctx (Ledger.start false) := rfl
  have again := body _ p m visited
  rw [erased] at again
  refine ⟨A.solutionOf ctx p (Replacement.erased.put m).notes, ?_, ⟨rfl, rfl, rfl, rfl, rfl, rfl, rfl, rfl⟩⟩
  rw [solve_handling_none ctx I]
  exact run_solveBody_eq_ok.2 ⟨p, _, again, rfl, rfl⟩

namespace Passing

open Polling (info)
open SharedSite (method graph)

/-- A local variable. -/
def var (name : String) : Symbol := Symbol.localVar name none

/-- The parameter of the method that is called. -/
def parameter : Symbol := ⟨"p", .parameter, none, none, .ref, 0⟩

/-- Copies a variable to another one, and passes that one by reference. -/
def main : Graph :=
  graph (method "main")
    [.assignment (info 3) (.localRef (info 1) (var "y")) (.localRef (info 2) (var "x")),
      .ret (info 6) (some (.invocation (info 5) (method "read") none [⟨none, .localRef (info 4) (var "y"), .ref⟩]))]

/-- Copies its parameter, which it returns. -/
def callee : Graph :=
  { graph (method "read")
      [.assignment (info 9) (.localRef (info 7) (var "z")) (.parameterRef (info 8) parameter),
        .ret (info 11) (some (.localRef (info 10) (var "z")))] with
    parameters := [parameter] }

/-- A run over the method at the top. -/
def context : Context CopyClass :=
  Context.start main Config.usual fun m => if m = method "read" then some callee else none

/-- What a run comes to. -/
def result (handling : CallHandling) : Except Failure (Solution CopyClass) :=
  ((copies.solve (context.handling handling)).run (Ledger.start false)).1

end Passing

end Analysis

end Dataflow
