import Dataflow.Analysis.Contents
import Dataflow.Proofs.Contents.Values
import Dataflow.Proofs.Copies.Soundness
import Dataflow.Proofs.Variables.Pointwise

/-!
# Variables hold what their contents allow

Before an operation the analysis of literal content has a content for each variable. In all
runs of a body over variables, a variable that has a value there has one that its content
allows: one of the literals listed, unless the content may be something else.

If the analysis uses classes of copies, a store is one into all copies of the target. That
this is right rests on the copy analysis: the class that it has for an assignment is that of
variables that hold the assigned value afterwards. So the readings of both analyses are used,
and what the second one says is what the first one is allowed to use of an event.

## What is proved

`reading_sound` for the hooks, and `solve_contents` for solutions.
-/

namespace Dataflow

namespace Analysis.ContentAnalysis

variable {Ω : Type} {s s' : State Content} {σ : Store (Datum Ω)} {owner : Symbol}

/-- Variables hold what their contents allow. An event is allowed if the classes of copies, in case
they are used, say the truth about it. -/
def reading (Ω : Type) (owner : Symbol) (copies : Option (Solution CopyClass)) : Reading Content (Datum Ω) :=
  .pointwise Domain.contents owner Content.Allows fun ev =>
    ∀ sol, copies = some sol → (CopyAnalysis.reading (Datum Ω) owner).Explains sol.values ev

variable {used : Option (Solution CopyClass)}

/-! ### Stores -/

/-- A store into some entities. -/
theorem valueOr_foldl_insert (l : List Entity) (v : Content) (s : State Content) (a : Entity) :
    State.valueOr Domain.contents (l.foldl (fun s e => s.insert e v) s) a =
      if a ∈ l then v else State.valueOr Domain.contents s a := by
  induction l generalizing s with
  | nil => simp
  | cons e l ih =>
    rw [List.foldl_cons, ih]
    by_cases hl : a ∈ l
    · simp [hl]
    · by_cases hae : a = e
      · simp [hae]
      · simp [hl, hae, State.valueOr_insert_ne]

/-- A store into other entities that hold the same value, if they hold one. -/
theorem fits_foldl_insert {l : List Entity} {c : Content} {v : Datum Ω} (hfits : (reading Ω owner used).fits s σ)
    (hc : c.Allows v) (same : ∀ x, Entity.localVar x owner ∈ l → ∀ w, σ x = some w → w = v) :
    (reading Ω owner used).fits (l.foldl (fun s e => s.insert e c) s) σ := by
  intro x w hx
  rw [valueOr_foldl_insert]
  split
  · rw [same x ‹_› w hx]
    exact hc
  · exact hfits x w hx

/-- The copies of the target hold what is stored. -/
theorem eq_of_mem_copiesAfter {ctx : Context Content} {op : Operation} {x y : Symbol} {v w : Datum Ω}
    {σ : Store (Datum Ω)} (hallowed : (reading Ω ctx.owner ctx.copies).allowed ⟨op, some v, σ⟩)
    (hy : Entity.localVar y ctx.owner ∈ copiesAfter ctx op (.localVar x ctx.owner)) (hw : σ y = some w) : w = v := by
  unfold copiesAfter at hy
  split at hy
  · rename_i c hclass
    split at hy
    · obtain ⟨sol, hsol, hvalue⟩ := Option.bind_eq_some_iff.1 hclass
      obtain ⟨c', t, hvalue', -, hmembers⟩ := hallowed sol hsol v rfl
      obtain rfl := Option.some.inj (hvalue.symm.trans hvalue')
      rw [FinSet.mem_toList, FinSet.mem_erase] at hy
      exact hmembers y hy.2 w hw
    · cases hy
  · cases hy

/-! ### The hooks -/

/-- Every hook keeps variables within their contents. -/
theorem reading_sound {ctx : Context Content} (handling : ctx.config.calls.handling = .none)
    (entry : ctx.entry = none) {usual : Call Content → Visit Content Content} (husual : IsUsual contents ctx usual) :
    (reading Ω ctx.owner ctx.copies).Sound .withCalls (Meaning.ofLiterals Ω) contents ctx usual where
  good_merge := fun _ _ _ _ => trivial
  good_widen := fun _ _ _ _ => trivial
  fits_merge := fun _ _ _ _ _ => Reading.fits_merge_of_values Content.merge_self fun _ _ _ => Content.merge_allows
  fits_widen := fun _ _ _ _ _ =>
    Reading.fits_widen_of_values Content.merge_self fun _ _ _ => Content.widenValue_allows
  initial := by
    refine fun s h => ⟨trivial, fun σ hσ => Reading.fits_initialState entry h hσ fun x a v ha _ => ?_⟩
    obtain rfl : Content.any = a := Except.ok.inj ha
    exact Content.any_allows v
  literal := by
    intro i l s σ v _ _ hv
    rw [show v = .literal l from hv]
    exact Content.ofLiteral_allows l
  reference := by
    intro op x m _ _
    show Visit.Ensures (do return State.valueOr Domain.contents (← Visit.state) _) m _
    rw [Visit.ensures_bind, Visit.ensures_state, Visit.ensures_pure]
    exact ⟨rfl, .refl m, fun σ v hσ hx => hσ x v hx⟩
  assign := by
    intro i target value x m a _ _
    show Visit.Ensures (ContentAnalysis.assign ctx (.assignment i target value) (some (.localVar x ctx.owner)) a) m _
    unfold ContentAnalysis.assign
    simp only [Visit.ensures_bind, Visit.ensures_state, Visit.ensures_setState, Visit.ensures_pure]
    refine ⟨trivial, ⟨rfl, rfl, rfl, rfl⟩, fun σ v hσ ha hallowed => ⟨?_, ha⟩⟩
    rw [State.write_of_isMethodLocal _ _ _ rfl]
    refine fits_foldl_insert (Reading.fits_insert hσ fun w hw => ?_) ha fun y hy w hw => ?_
    · rw [← Option.some.inj hw]
      exact ha
    · exact eq_of_mem_copiesAfter hallowed hy hw
  binary := by
    intro i operator left right m a b _
    show Visit.Ensures (Visit.check (Content.binary operator a b)) m _
    rw [Visit.ensures_check]
    intro c hc
    refine ⟨rfl, .refl m, ?_⟩
    rintro σ u v w - ⟨_, _, ha⟩ ⟨_, _, hb⟩ hw
    exact Content.binary_allows ha hb hc hw
  convert := fun h => by cases h
  create := fun h => by cases h
  createArray := fun h => by cases h
  invoke := by
    intro _ call xs m good _ passed
    rw [handleCall_eq_callOpaquely handling husual]
    exact invoke_sound (Reading.escapes_pointwise (A := contents) (fun _ _ _ => rfl) fun _ => Content.any_allows) call
      xs m good passed fun _ _ w _ _ => Content.any_allows w
  forget := by
    intro x s s' _ hf
    obtain rfl := Except.ok.inj hf
    exact ⟨trivial, fun σ hσ => Reading.fits_erase hσ⟩

end Analysis.ContentAnalysis

namespace Analysis

/-- The solution is what the copy analysis finds out about a body whose caller is not known, without
following calls. -/
def IsCopiesOf (g : Graph) (sol : Solution CopyClass) : Prop :=
  ∃ (ctx : Context CopyClass) (ledger ledger' : Ledger CopyClass), ctx.graph = g ∧
    ctx.config.calls.handling = .none ∧ ctx.entry = none ∧ (copies.solve ctx).run ledger = (.ok sol, ledger')

/-- Whenever control is before an operation, every variable with a value holds one that its content
allows: for any body over variables with calls, in all of its runs, with or without classes of
copies. -/
theorem solve_contents {Ω : Type} {ctx : Context Content} {ledger ledger' : Ledger Content} {sol : Solution Content}
    (h : (contents.solve ctx).run ledger = (.ok sol, ledger')) (valid : ctx.graph.Valid)
    (within : ctx.graph.Within .withCalls) (distinct : ctx.graph.DistinctIds)
    (handling : ctx.config.calls.handling = .none) (entry : ctx.entry = none)
    (copied : ∀ used, ctx.copies = some used → IsCopiesOf ctx.graph used) {b : Block} {op : Operation}
    {ops : List Operation} {σ : Store (Datum Ω)}
    (hreached : Reached (Meaning.ofLiterals Ω) ctx.graph b (op :: ops) σ) :
    ∃ s, sol.stateBefore op.id = some s ∧
      ∀ x v, σ x = some v → (State.valueOr Domain.contents s (.localVar x ctx.owner)).Allows v := by
  have allowed : (ContentAnalysis.reading Ω ctx.owner ctx.copies).AllowsRuns (Meaning.ofLiterals Ω) ctx.graph := by
    intro b' ops' σ' hreached' ev hev used hused
    obtain ⟨copyCtx, start, finish, hgraph, hhandling, hentry, hrun⟩ := copied used hused
    rw [← hgraph] at valid within distinct hreached'
    have howner : copyCtx.owner = ctx.owner := congrArg Graph.owner hgraph
    rw [← howner]
    exact CopyAnalysis.events_explained hrun valid within distinct hhandling hentry hreached' hev
  exact (run_explained (fun _ husual => ContentAnalysis.reading_sound handling entry husual) valid within distinct h
    allowed hreached).1

end Analysis

end Dataflow
