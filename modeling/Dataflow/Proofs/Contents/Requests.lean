import Dataflow.Proofs.Session.Records

/-!
# Literal content on request

What a session answers to a request for the literal content of a body holds in all runs of the
body, whatever was requested before, and whether or not the configuration asks for classes of
copies.

## What is proved

`valueContent_allows`. The answer was computed for the body, from the copies of the same body if
from any (`Session.valueContent_keeps`), and such a solution is sound (`Analysis.solve_contents`).
-/

namespace Dataflow

namespace Session

/-- Whenever control is before an operation, every variable with a value holds a literal that the
answer has for it there, unless its content may be something else. -/
theorem valueContent_allows {s : Session} {g : LoadedGraph} {config : Config} {desk desk' : Desk}
    {stored : Stored (Solution Content)} (hdesk : Desk.Reached g desk)
    (h : (s.valueContent g config).run desk = (.ok stored, desk')) (valid : g.graph.Valid)
    (within : g.graph.Within .withCalls) (distinct : g.graph.DistinctIds)
    (handling : config.calls.handling = .none) {Ω : Type} {b : Block} {op : Operation} {ops : List Operation}
    {σ : Store (Datum Ω)} (hreached : Reached (Meaning.ofLiterals Ω) g.graph b (op :: ops) σ) :
    ∃ st, stored.value.stateBefore op.id = some st ∧ ∀ x v, σ x = some v →
      (∃ l ∈ (State.valueOr Domain.contents st (.localVar x g.graph.owner)).literals, v = .literal l) ∨
        (State.valueOr Domain.contents st (.localVar x g.graph.owner)).state = .maybe := by
  have keeps : Request.Keeps g (s.valueContent g config) _ := valueContent_keeps fun _ => rfl
  obtain ⟨-, hstored⟩ := keeps desk hdesk.files
  rw [h] at hstored
  obtain ⟨ctx, ledger, ledger', hgraph, hnone, hentry, hused, hrun⟩ := hstored stored rfl rfl handling
  have howner : ctx.owner = g.graph.owner := congrArg Graph.owner hgraph
  rw [← hgraph] at valid within distinct hreached hused
  obtain ⟨st, hbefore, hallows⟩ := Analysis.solve_contents hrun valid within distinct hnone hentry hused hreached
  refine ⟨st, hbefore, fun x v hx => ?_⟩
  rw [← howner]
  exact hallows x v hx

/-! ### A sum, stored after one of its operands -/

namespace StoredSum

open TwoStores

/-- The sum of `a` and two. -/
def sum : Operation :=
  .binary (info 4) .add (.localRef (info 7) first) (.literal (info 8) (.integer 2))

/-- Stores one into `a` and the sum into `b`. The reference to `b` has the given identifier. -/
def graph (number : UInt32) : LoadedGraph :=
  ⟨.single 0, TwoStores.graph number [] (.literal (info 1) (.integer 1)) sum⟩

/-- Classes of copies are used. -/
def config : Config := { Config.usual with usesCopies := true }

/-- The store before the return. -/
def finish : Store (Datum Empty) :=
  (Store.set (fun _ => none) first (some (.literal (.integer 1)))).set second (some (.literal (.integer 3)))

/-- Control comes to the return with one in `a` and three in `b`. -/
theorem reached (number : UInt32) :
    Reached (Meaning.ofLiterals Empty) (graph number).graph (block number (.literal (info 1) (.integer 1)) sum)
      [.ret (info 6) none] finish := by
  refine TwoStores.reached (fun x v hx => by cases hx) (.step .nil (.literal rfl)) ?_
  have operands : EvalAll (Meaning.ofLiterals Empty) sum.evaluated
      (Store.set (fun _ => none) first (some (.literal (.integer 1))))
      [some (.literal (.integer 1)), some (.literal (.integer 2))]
      (Store.set (fun _ => none) first (some (.literal (.integer 1)))) :=
    .cons (.step .nil (.localRef (Store.set_self _ _ _))) (.cons (.step .nil (.literal rfl)) .nil)
  refine .step operands (.binary fun l r hl hr x hx => ?_)
  cases hl
  cases hr
  have result : BinaryOperator.add.evaluate? (.integer 1) (.integer 2) = some (.integer 3) := by decide +kernel
  rw [result] at hx
  exact congrArg Datum.literal (Option.some.inj hx)

end StoredSum

open StoredSum in
/-- With distinct identifiers the answer allows what `a` and `b` hold. -/
theorem valueContent_allows_storedSum :
    ∃ stored desk', (bare.valueContent (graph 3) config).run Desk.clean = (.ok stored, desk') ∧
      ∃ st, stored.value.stateBefore ⟨6⟩ = some st ∧ ∀ x v, finish x = some v →
        (∃ l ∈ (State.valueOr Domain.contents st (.localVar x (graph 3).graph.owner)).literals, v = .literal l) ∨
          (State.valueOr Domain.contents st (.localVar x (graph 3).graph.owner)).state = .maybe := by
  obtain ⟨stored, desk', h⟩ :=
    Analysis.exists_of_isOk (r := (bare.valueContent (graph 3) config).run Desk.clean) (by decide +kernel)
  exact ⟨stored, desk', h, valueContent_allows .clean h (by decide +kernel) (by decide +kernel) (by decide +kernel)
    rfl (StoredSum.reached 3)⟩

open StoredSum in
/-- If the reference to `b` has the identifier of the one to `a`, it is taken for `a`: before the
return the answer has the sum for `a`, which holds one. -/
theorem valueContent_mistakes_reference :
    ∃ stored desk', (bare.valueContent (graph 0) config).run Desk.clean = (.ok stored, desk') ∧
      (graph 0).graph.Valid ∧ (graph 0).graph.Within .withCalls ∧ config.calls.handling = .none ∧
        ∃ b st, Reached (Meaning.ofLiterals Empty) (graph 0).graph b [.ret (TwoStores.info 6) none] finish ∧
          stored.value.stateBefore ⟨6⟩ = some st ∧ finish TwoStores.first = some (.literal (.integer 1)) ∧
            Literal.integer 1 ∉ (State.valueOr Domain.contents st
              (.localVar TwoStores.first (graph 0).graph.owner)).literals ∧
              (State.valueOr Domain.contents st (.localVar TwoStores.first (graph 0).graph.owner)).state ≠ .maybe := by
  have content : ((bare.valueContent (graph 0) config).run Desk.clean).1.toOption.bind (fun stored =>
      (stored.value.stateBefore ⟨6⟩).map fun st =>
        State.valueOr Domain.contents st (.localVar TwoStores.first (graph 0).graph.owner)) =
          some (Content.ofLiteral (.integer 3)) := by
    decide +kernel
  obtain ⟨stored, desk', st, h, hst, hcontent⟩ := Analysis.exists_of_inspected content
  refine ⟨stored, desk', h, by decide +kernel, by decide +kernel, rfl, _, st, StoredSum.reached 0, hst, rfl, ?_, ?_⟩
  · rw [hcontent]
    decide +kernel
  · rw [hcontent]
    decide

end Session

end Dataflow
