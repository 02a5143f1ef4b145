import Dataflow.Proofs.Congruence.Likeness

/-!
# Visits that differ in the ledger

Much of what relates two ways to handle calls has to do with the ledger alone: with what is on file, with the
budget, and with cancellation.

## The notions

* `Congruence`: a relation of visits that relates what has nothing to do with the ledger to itself. It is a likeness.
* `Analysis.handleCallBy`: how calls are handled, for any way to find the solution of a callee.

## What is proved

Runs over a body are related if the ways to handle its calls are (`Congruence.settleBody`). These are if the ways to find
solutions of callees are (`Congruence.handleCallBy`).
-/

namespace Dataflow

variable {V : Type}

/-- A relation of visits that extends to visits made of related parts, whatever has nothing to do with the ledger. -/
structure Congruence (V : Type) where
  /-- The relation. -/
  Rel : {α : Type} → Visit V α → Visit V α → Prop
  /-- What has nothing to do with the ledger is related to itself. -/
  apart : ∀ {α : Type} {x : Visit V α}, x.Apart → Rel x x
  /-- Related visits one after the other. -/
  bind : ∀ {α β : Type} {x y : Visit V α} {f g : α → Visit V β}, Rel x y → (∀ a, Rel (f a) (g a)) →
    Rel (x >>= f) (y >>= g)
  /-- A check for cancellation. -/
  checkCancelled : Rel Visit.checkCancelled Visit.checkCancelled

/-- What does not notice a replacement of the ledger has nothing to do with the ledger. -/
def Congruence.likeness (R : Congruence V) : Likeness V where
  Rel := R.Rel
  Hidden := Replacement.IsLedger
  blind hx := R.apart hx.apart
  bind := R.bind
  checkCancelled := R.checkCancelled
  withdraw φ hφ op hits := by rw [Replacement.hits_of_isLedger hφ]; rfl

/-- Whether the filter accepts the method. -/
def Context.admits (ctx : Context V) (method : Symbol) : Bool :=
  match ctx.config.filter with
  | none => true
  | some filter => (filter.judge method).accept

namespace Analysis

variable (A : Analysis V) (ctx : Context V)

/-- A call into a body whose solution is found in some way. -/
def followBy [DecidableEq V] (found : Visit V (Option (Solution V))) (call : Call V) (inContext : Bool) : Visit V V := do
  Visit.checkCancelled
  match ← found with
  | none => A.callOpaquely ctx.config call
  | some s =>
    let site := call.operation.id
    Visit.modifyHits (·.absorb site s.hits)
    Visit.modifyNotes fun n => { n with callees := n.callees.insert site s }
    if A.crossesCalls then A.comeBack ctx call s inContext
    else A.callOpaquely ctx.config call

/-- How the solution of a callee is found, if the call may be followed. -/
def found? (find : Option (Call V → Graph → Visit V (Option (Solution V)))) (call : Call V) :
    Option (Visit V (Option (Solution V))) :=
  match ctx.isOnStack call.method, find, ctx.bodies call.method with
  | false, some find, some callee => some (find call callee)
  | _, _, _ => none

/-- The usual way to handle a call, for some way to find the solution of a callee. -/
def handleCallBy [DecidableEq V] (find : Option (Call V → Graph → Visit V (Option (Solution V)))) (call : Call V) :
    Visit V V := do
  if ctx.config.calls.handling = .none then
    A.callOpaquely ctx.config call
  else if !(← accepts ctx call.method) then
    A.callOpaquely ctx.config call
  else
    match found? ctx find call with
    | some found => A.followBy ctx found call (ctx.config.calls.handling == .inContext)
    | none => A.callOpaquely ctx.config call

theorem handleCall_eq [DecidableEq V] (deeper : Option (Context V → Run V (Solution V))) :
    A.handleCall ctx deeper = A.handleCallBy ctx (deeper.map fun solve call callee =>
      A.calleeSolution? ctx solve call callee (ctx.config.calls.handling == .inContext)) := by
  funext call
  unfold handleCall handleCallBy found?
  split
  · rfl
  · refine bind_congr fun accepted => ?_
    split
    · rfl
    · cases ctx.isOnStack call.method with
      | true => rfl
      | false =>
        cases deeper with
        | none => rfl
        | some solve => cases ctx.bodies call.method <;> rfl

/-- What the filter says is known beforehand. -/
theorem accepts_bind {α : Type} (method : Symbol) (k : Bool → Visit V α) :
    (accepts ctx method >>= k) = accepts ctx method >>= fun _ => k (ctx.admits method) := by
  unfold accepts Context.admits
  cases ctx.config.filter with
  | none => rfl
  | some filter =>
    dsimp only
    split
    · simp only [bind_assoc, pure_bind]
    · simp only [pure_bind]

variable {A ctx}

/-- A filter that does not cancel the work has nothing to do with the ledger. -/
theorem accepts_apart {method : Symbol} (h : ∀ f, ctx.config.filter = some f → (f.judge method).cancel = false) :
    (accepts ctx method).Apart := by
  unfold accepts
  cases hfilter : ctx.config.filter with
  | none => exact .pure _
  | some f =>
    simp only [h f hfilter]
    exact .pure _

end Analysis

namespace Congruence

variable (R : Congruence V) {A : Analysis V} {ctx ctx' : Context V} {usual usual' : Call V → Visit V V} {α : Type}

/-- A visit that begins with something apart. -/
theorem bind_apart {β : Type} {x : Visit V α} {f g : α → Visit V β} (hx : x.Apart) (h : ∀ a, R.Rel (f a) (g a)) :
    R.Rel (x >>= f) (x >>= g) :=
  R.bind (R.apart hx) h

/-! ### Calls -/

/-- To ask the filter is related to itself if to cancel the work is. -/
theorem accepts (method : Symbol)
    (cancel : R.Rel (Visit.modifyLedger fun l => { l with cancelled := true })
      (Visit.modifyLedger fun l => { l with cancelled := true })) :
    R.Rel (Analysis.accepts ctx method) (Analysis.accepts ctx method) := by
  unfold Analysis.accepts
  cases ctx.config.filter with
  | none => exact R.apart (.pure _)
  | some filter =>
    dsimp only
    split
    · exact R.bind cancel fun _ => R.apart (.pure _)
    · exact R.apart (.pure _)

section Calls

variable [DecidableEq V] {find find' : Option (Call V → Graph → Visit V (Option (Solution V)))} {call : Call V}

/-- Calls are handled in related ways if they may be followed in the same cases, and if solutions of callees are found in
related ways then. -/
theorem handleCallBy_of_found (config : ctx'.config = ctx.config)
    (accepts : R.Rel (Analysis.accepts ctx call.method) (Analysis.accepts ctx' call.method))
    (found : ctx.admits call.method = true → Option.Rel
      (fun x y => R.Rel (Visit.checkCancelled >>= fun _ => x) (Visit.checkCancelled >>= fun _ => y))
      (Analysis.found? ctx find call) (Analysis.found? ctx' find' call)) :
    R.Rel (A.handleCallBy ctx find call) (A.handleCallBy ctx' find' call) := by
  have opaquely : R.Rel (A.callOpaquely ctx.config call) (A.callOpaquely ctx.config call) :=
    R.apart (Analysis.callOpaquely_blind _ _).apart
  have same : A.comeBack ctx' = A.comeBack ctx := by
    funext call sol inContext
    unfold Analysis.comeBack
    rw [config]
  have follow {x y : Visit V (Option (Solution V))}
      (h : R.Rel (Visit.checkCancelled >>= fun _ => x) (Visit.checkCancelled >>= fun _ => y)) (inContext : Bool) :
      R.Rel (A.followBy ctx x call inContext) (A.followBy ctx' y call inContext) := by
    unfold Analysis.followBy
    rw [← bind_assoc, ← bind_assoc, config, same]
    refine R.bind h fun sol => ?_
    cases sol with
    | none => exact opaquely
    | some sol =>
      refine R.bind_apart (.modifyNotes _) fun _ => R.bind_apart (.modifyNotes _) fun _ => ?_
      split
      · exact R.apart (Analysis.comeBack_blind _ _ _).apart
      · exact opaquely
  have admits : ctx'.admits call.method = ctx.admits call.method := by
    unfold Context.admits
    rw [config]
  unfold Analysis.handleCallBy
  rw [config, Analysis.accepts_bind ctx, Analysis.accepts_bind ctx', admits]
  split
  · exact opaquely
  · refine R.bind accepts fun _ => ?_
    cases admitted : ctx.admits call.method with
    | false => exact opaquely
    | true =>
      simp only [Bool.not_true, Bool.false_eq_true, if_false]
      have found := found admitted
      revert found
      generalize Analysis.found? ctx find call = x, Analysis.found? ctx' find' call = y
      rintro (h | _)
      · exact follow h _
      · exact opaquely

/-- In one context calls are handled in related ways if solutions of callees are found in related ways. -/
theorem handleCallBy
    (accepts : R.Rel (Analysis.accepts ctx call.method) (Analysis.accepts ctx call.method))
    (found : Option.Rel (fun f f' => ∀ callee, ctx.admits call.method = true → ctx.isOnStack call.method = false →
      ctx.bodies call.method = some callee →
        R.Rel (Visit.checkCancelled >>= fun _ => f call callee) (Visit.checkCancelled >>= fun _ => f' call callee))
          find find') :
    R.Rel (A.handleCallBy ctx find call) (A.handleCallBy ctx find' call) := by
  refine R.handleCallBy_of_found rfl accepts fun admitted => ?_
  unfold Analysis.found?
  cases hstack : ctx.isOnStack call.method with
  | true => exact .none
  | false =>
    cases found with
    | none => exact .none
    | some found =>
      cases hbody : ctx.bodies call.method with
      | none => exact .none
      | some callee => exact .some (found callee admitted hstack hbody)

end Calls

/-- Runs over a body are related if the ways to handle its calls are. -/
theorem settleBody [DecidableEq V] (H : A.Apart)
    (usuals : ∀ call, ctx.graph.Calls call → R.Rel (usual call) (usual' call)) :
    R.Rel (A.settleBody ctx usual) (A.settleBody ctx usual') :=
  R.likeness.settleBody H usuals

end Congruence

/-! ### Invariants -/

/-- Visits that keep what is the case with the ledger. -/
def Congruence.keeping (I : Ledger V → Prop) : Congruence V where
  Rel x _ := ∀ m, I m.ledger → I (ExceptT.run x m).2.ledger
  apart hx m hm := by rwa [hx.ledger_eq]
  bind hx hf m hm := by
    have first := hx m hm
    rw [Visit.run_bind]
    split
    · rename_i a m' h
      rw [h] at first
      exact hf a m' first
    · rename_i e m' h
      rwa [h] at first
  checkCancelled m hm := by rwa [Visit.run_checkCancelled_eq]

/-- A run over a body keeps what handling its calls keeps. -/
theorem Congruence.keeping_solveBody [DecidableEq V] {I : Ledger V → Prop} {A : Analysis V} {ctx : Context V}
    {usual : Call V → Visit V V} (H : A.Apart)
    (usuals : ∀ call, ctx.graph.Calls call → (keeping I).Rel (usual call) (usual call)) {l : Ledger V} (hl : I l) :
    I ((A.solveBody ctx usual).run l).2 :=
  (keeping I).settleBody H usuals ⟨_, _, l⟩ hl

end Dataflow
