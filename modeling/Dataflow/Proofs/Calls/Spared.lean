import Dataflow.Proofs.Calls.Recall
import Dataflow.Proofs.Locals.Frame

/-!
# What calls leave alone

A call may be opaque, be handled with a summary of its callee, or take over what the callee left in the context of the
call. In each case many entities are written to, and all that may be the same storage changes with them.

## The notions

* `Visit.Succeeds`: a visit never fails.
* `Analysis.SparesLocals`: however a call is handled, the storage of methods that it does not pass by reference stays as it
  is.

## What is proved

Once it is settled how a call is handled, nothing can fail any more. So a call that fails has not changed the state
(`Analysis.state_of_handleCall_error`), and one that succeeds has changed no storage of methods but what it passes by
reference, whatever is known of the callee and whatever that left (`Analysis.calls_spare_locals`).
-/

namespace Dataflow

variable {V α β : Type}

/-! ### Visits that never fail -/

namespace Visit

/-- The visit never fails. -/
def Succeeds (x : Visit V α) : Prop := ∀ m, ∃ a m', ExceptT.run x m = (.ok a, m')

namespace Succeeds

theorem pure (a : α) : Succeeds (pure a : Visit V α) := fun m => ⟨a, m, rfl⟩

theorem state : Succeeds (state : Visit V (State V)) := fun m => ⟨m.state, m, rfl⟩

theorem modifyNotes (f : Notes V → Notes V) : Succeeds (modifyNotes f) := fun _ => ⟨⟨⟩, _, rfl⟩

theorem modifyHits (f : HitLog → HitLog) : Succeeds (modifyHits f : Visit V Unit) := fun _ => ⟨⟨⟩, _, rfl⟩

theorem bind {x : Visit V α} {f : α → Visit V β} (h : Succeeds x) (hf : ∀ a, Succeeds (f a)) : Succeeds (x >>= f) := by
  intro m
  obtain ⟨a, m₁, run⟩ := h m
  rw [run_bind, run]
  exact hf a m₁

end Succeeds

end Visit

namespace Analysis

/-! ### Calls that fail -/

section Failures

variable {A : Analysis V} {ctx : Context V} {call : Call V}
variable (plain : A.write = fun e v s => .ok (State.write A.domain e v s))
include plain

theorem storeAll_succeeds (l : List (Entity × V)) : Visit.Succeeds (A.storeAll l) := fun m => ⟨_, _, run_storeAll plain l m⟩

theorem escapeReachable_succeeds (config : Config) : Visit.Succeeds (A.escapeReachable config call) :=
  fun _ => ⟨_, _, run_escapeReachable plain⟩

theorem callOpaquely_succeeds (config : Config) : Visit.Succeeds (A.callOpaquely config call) :=
  fun _ => ⟨_, _, run_callOpaquely plain⟩

variable [DecidableEq V]

theorem comeBack_succeeds (sol : Solution V) (inContext : Bool) : Visit.Succeeds (A.comeBack ctx call sol inContext) := by
  refine (storeAll_succeeds plain _).bind fun _ => ?_
  cases inContext with
  | false => exact (escapeReachable_succeeds plain _).bind fun _ => .pure _
  | true =>
    cases sol.finish with
    | none => exact .pure _
    | some exit => exact .bind .state fun s => (storeAll_succeeds plain _).bind fun _ => .pure _

theorem takeUp_succeeds (sol : Solution V) : Visit.Succeeds (A.takeUp ctx call sol) := by
  refine .bind (.modifyHits _) fun _ => .bind (.modifyNotes _) fun _ => ?_
  split
  · exact comeBack_succeeds plain sol _
  · exact callOpaquely_succeeds plain _

/-- Only the search for a solution of the callee may fail, and it leaves the state as it is. -/
theorem state_of_handleCall_error {deeper : Option (Context V → Run V (Solution V))} {m m' : Machine V} {e : Failure}
    (h : ExceptT.run (A.handleCall ctx deeper call) m = (.error e, m')) : m'.state = m.state := by
  have aside : Visit.LeavesBody (A.answer ctx deeper call) := answer_leavesBody deeper call
  obtain ⟨r, after, run⟩ := aside m.state m.ledger
  replace run : ExceptT.run (A.answer ctx deeper call) m = (r, { m with ledger := after }) := run m.notes
  rw [handleCall_eq_answer, Visit.run_bind, run] at h
  cases r with
  | error e => cases h; rfl
  | ok found =>
    cases found with
    | none =>
      have opaquely : Visit.Succeeds (A.callOpaquely ctx.config call) := callOpaquely_succeeds plain _
      obtain ⟨v, m₁, done⟩ := opaquely { m with ledger := after }
      cases done.symm.trans h
    | some s =>
      have followed : Visit.Succeeds (A.takeUp ctx call s) := takeUp_succeeds plain s
      obtain ⟨v, m₁, done⟩ := followed { m with ledger := after }
      cases done.symm.trans h

end Failures

/-! ### Storage of methods -/

/-- However a call is handled, and whether that fails or not, the storage of methods that the call does not pass by reference
holds what it held, and is tracked if it was. -/
def SparesLocals [DecidableEq V] (A : Analysis V) : Prop :=
  ∀ (ctx : Context V) (deeper : Option (Context V → Run V (Solution V))) (call : Call V) (m : Machine V) (e : Entity),
    e.isMethodLocal = true → e ∉ passedStorage call →
      (ExceptT.run (A.handleCall ctx deeper call) m).2.state.find? e = m.state.find? e

theorem sparesLocals [DecidableEq V] {A : Analysis V} (plain : A.write = fun e v s => .ok (State.write A.domain e v s)) :
    A.SparesLocals := by
  intro ctx deeper call m e isLocal unpassed
  rcases h : ExceptT.run (A.handleCall ctx deeper call) m with ⟨f | v, m'⟩
  · exact congrArg (fun s : State V => s.find? e) (state_of_handleCall_error plain h)
  · have preserves : Visit.Preserves (· = e) (A.handleCall ctx deeper call) :=
      handleCall_preserves plain (K := fun a => a = e) (fun a same => same ▸ isLocal) (fun a same => same ▸ unpassed) deeper
    exact (preserves m v m' h).1 e rfl

/-- **Calls leave other locals alone.** In the analyses of references, of literal content and of taint a call changes, adds
and removes no storage of the caller's method but what it passes by reference. It does not matter what the state is, how
calls are configured, what bodies there are, and whether and how these are solved. -/
theorem calls_spare_locals (rules : TaintRules) :
    pointsTo.SparesLocals ∧ contents.SparesLocals ∧ (taint rules).SparesLocals :=
  ⟨sparesLocals rfl, sparesLocals rfl, sparesLocals rfl⟩

namespace Refill

open Nodes

/-- A method that stores two into a variable of the caller. -/
def refill : Symbol := Symbol.method "C" "refill" none

/-- Its parameter. -/
def parameter : Symbol := ⟨"p", .parameter, int, none, .ref, 0⟩

/-- What it does. -/
def callee : Graph :=
  ⟨refill, [parameter], [⟨⟨0⟩, .entry, [.assignment (info 12 int) (.parameterRef (info 10 int) parameter)
    (.literal (info 11 int) (.integer 2))], none, [⟨⟨1⟩, .regular⟩], []⟩, .bare ⟨1⟩ .exit]⟩

/-- Callees are analysed in the contexts of their calls. -/
def context : Context Content :=
  Context.start (body []) { Config.usual with calls := CallConfig.usual .inContext } fun m =>
    if m = refill then some callee else none

/-- A variable of the caller. -/
def mainLocal (name : String) : Entity := .localVar (Symbol.localVar name int) main

/-- One of two variables is passed by reference. -/
def call : Call Content :=
  ⟨.invocation (info 5 none) refill none [⟨none, .localRef (info 4 int) (Symbol.localVar "x" int), .ref⟩], refill, none,
    [⟨⟨4⟩, none, .ref, some (mainLocal "x"), .noLocation, .ofLiteral (.integer 1)⟩]⟩

/-- Each of them holds one. -/
def before : State Content :=
  (State.empty.insert (mainLocal "x") (.ofLiteral (.integer 1))).insert (mainLocal "y") (.ofLiteral (.integer 1))

end Refill

open Nodes Refill in
/-- After the call the variable that was passed holds two and the other one still holds one. -/
theorem calls_spare_locals_refill : ∃ v m',
    ExceptT.run (contents.handleCall context (contents.deeperIn context) call) (machine before true) = (.ok v, m') ∧
    m'.state.find? (mainLocal "x") = some (.ofLiteral (.integer 2)) ∧
    m'.state.find? (mainLocal "y") = some (.ofLiteral (.integer 1)) := by
  obtain ⟨v, m', run⟩ := exists_of_isOk
    (r := ExceptT.run (contents.handleCall context (contents.deeperIn context) call) (machine before true))
    (by decide +kernel)
  have stored : (ExceptT.run (contents.handleCall context (contents.deeperIn context) call)
      (machine before true)).2.state.find? (mainLocal "x") = some (.ofLiteral (.integer 2)) := by decide +kernel
  obtain ⟨-, spares, -⟩ := calls_spare_locals Boxes.rules
  have kept := spares context (contents.deeperIn context) call (machine before true) (mainLocal "y") rfl (by decide +kernel)
  have held : before.find? (mainLocal "y") = some (.ofLiteral (.integer 1)) := by decide +kernel
  rw [run] at stored kept
  exact ⟨v, m', run, stored, kept.trans held⟩

end Analysis

end Dataflow
