import Dataflow.Proofs.Congruence.Walk

/-!
# Contexts that a run comes to

A run over a body causes runs over the bodies of callees, each in a context of its own. Such a context is
described by the call sites that lead to it, if identifiers are distinct.

## The notions

* `Context.Follows`: the calls that are followed.
* `Context.Leads`: the contexts that a run in some context comes to by such calls.

## What is proved

From one context, the same call sites lead to the same context but for the state that the body starts in
(`Context.Leads.unique`).
-/

namespace Dataflow

variable {V : Type}

namespace Context

/-- The call of the body is followed into the callee, as far as the chain of calls may grow and the budget allows it. -/
structure Follows (ctx : Context V) (call : Call V) (callee : Graph) : Prop where
  /-- It is a call of the body. -/
  mem : ctx.graph.Calls call
  /-- The filter accepts the callee. -/
  admitted : ctx.admits call.method = true
  /-- The callee is not under way. -/
  away : ctx.isOnStack call.method = false
  /-- There is a body. -/
  body : ctx.bodies call.method = some callee

/-- The chain of calls may grow. -/
def HasRoom (ctx : Context V) : Prop := ctx.callStack.length < ctx.config.calls.maxCallChain.toNat

/-- A run in one context may cause a run in another one: by calls that are followed. -/
inductive Leads (top : Context V) : Context V → Prop where
  /-- The run itself. -/
  | refl : Leads top top
  /-- A call is followed. -/
  | call {ctx : Context V} (h : Leads top ctx) (room : ctx.HasRoom) {call : Call V} {callee : Graph}
      (follows : ctx.Follows call callee) (entry : Option (State V)) :
      Leads top (ctx.forCallee callee call.operation.id entry)

/-- The context without the state that the body starts in. -/
def entryless (ctx : Context V) : Context V := { ctx with entry := none }

/-- No two operations of any body share an identifier. -/
structure DistinctIds (top : Context V) : Prop where
  /-- In the body itself. -/
  graph : top.graph.DistinctIds
  /-- In the bodies of callees. -/
  bodies : ∀ method g, top.bodies method = some g → g.DistinctIds

theorem callSites_forCallee {ctx : Context V} {callee : Graph} {site : OperationId} {entry : Option (State V)} :
    (ctx.forCallee callee site entry).callSites = ctx.callSites ++ [site] := by
  simp [callSites, forCallee]

namespace Leads

variable {top ctx ctx' : Context V}

theorem bodies_eq (h : Leads top ctx) : ctx.bodies = top.bodies := by
  induction h with
  | refl => rfl
  | call _ _ _ _ ih => exact ih

theorem config_eq (h : Leads top ctx) : ctx.config = top.config := by
  induction h with
  | refl => rfl
  | call _ _ _ _ ih => exact ih

theorem distinctIds (h : Leads top ctx) (distinct : top.DistinctIds) : ctx.graph.DistinctIds := by
  cases h with
  | refl => exact distinct.graph
  | call h _ follows _ => exact distinct.bodies _ _ (h.bodies_eq ▸ follows.body)

/-- Calls that are followed make the chain of call sites longer. -/
theorem length_le (h : Leads top ctx) : top.callSites.length ≤ ctx.callSites.length := by
  induction h with
  | refl => exact Nat.le_refl _
  | call _ _ _ _ ih =>
    rw [callSites_forCallee, List.length_append]
    exact Nat.le_add_right_of_le ih

/-- The same call sites lead to the same context but for the state that the body starts in: by induction on the
calls, as an identifier belongs to one call of a body. -/
theorem unique (distinct : top.DistinctIds) (h : Leads top ctx) (h' : Leads top ctx')
    (sites : ctx.callSites = ctx'.callSites) : ctx.entryless = ctx'.entryless := by
  induction h generalizing ctx' with
  | refl =>
    cases h' with
    | refl => rfl
    | call h' =>
      have longer := h'.length_le
      rw [sites, callSites_forCallee, List.length_append, List.length_singleton] at longer
      omega
  | @call ctx h room call callee follows entry ih =>
    cases h' with
    | refl =>
      have longer := h.length_le
      rw [← sites, callSites_forCallee, List.length_append, List.length_singleton] at longer
      omega
    | @call ctx' h' room' call' callee' follows' entry' =>
      rw [callSites_forCallee, callSites_forCallee] at sites
      obtain ⟨sites, last⟩ := List.append_inj' sites rfl
      have site : call.operation.id = call'.operation.id := by simpa using last
      have callers := ih h' sites
      have graphs := congrArg Context.graph callers
      change ctx.graph = ctx'.graph at graphs
      -- the same call, and so the same callee
      have operations : call.operation = call'.operation :=
        (h.distinctIds distinct).id_inj follows.mem.1 (graphs ▸ follows'.mem.1) site
      have methods : call.method = call'.method := by
        obtain ⟨_, _, _, eq⟩ := follows.mem.2
        obtain ⟨_, _, _, eq'⟩ := follows'.mem.2
        rw [operations, eq'] at eq
        injection eq with _ methods
        exact methods.symm
      have callees : callee = callee' := by
        have body := follows.body
        rw [h.bodies_eq, methods, ← h'.bodies_eq, follows'.body] at body
        exact (Option.some.inj body).symm
      subst callees
      have contexts := congrArg (fun c : Context V => c.forCallee callee call.operation.id none) callers
      rw [site] at contexts ⊢
      exact contexts

end Leads

end Context

end Dataflow
