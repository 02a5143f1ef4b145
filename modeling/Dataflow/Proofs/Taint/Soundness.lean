import Dataflow.Proofs.Lattice.Absorption
import Dataflow.Proofs.Variables.Pointwise
import Dataflow.Proofs.Variables.Solution
import Dataflow.Proofs.Visit.Frame

/-!
# Untrusted data is followed

Give every concrete value a label that says whether untrusted data went into it. The results
of sources that are no sanitizers are labelled, and whatever is computed from a labelled value is.
Then the taint analysis is sound for bodies over variables that call methods by value, make
objects and convert values: what carries a label is tainted or unknown.

## What is proved

`reading_sound` for the hooks, and `solve_taint` for solutions: of the variables that control finds
before an operation, and of everything that is evaluated on the way. The labels are added to
any meaning of the operations (`Meaning.withLabels`), so nothing is assumed of the values
themselves.
-/

namespace Dataflow

/-! ### Labels -/

/-- A value that may carry a label. -/
structure Labelled (Ω : Type) where
  /-- The value. -/
  value : Ω
  /-- Whether untrusted data went into it. -/
  isLabelled : Bool

/-- Operations compute on values as given, and pass labels on. Calls of sources that are no
sanitizers bring labels in. -/
def Meaning.withLabels {Ω : Type} (rules : TaintRules) (M : Meaning Ω) : Meaning (Labelled Ω) where
  literal := fun l v => M.literal l v.value ∧ v.isLabelled = false
  binary := fun op operator u v w =>
    M.binary op operator u.value v.value w.value ∧ w.isLabelled = (u.isLabelled || v.isLabelled)
  conversion := fun op v w => M.conversion op v.value w.value ∧ w.isLabelled = v.isLabelled
  creation := fun op vs w => M.creation op (vs.map (·.value)) w.value ∧ w.isLabelled = vs.any (·.isLabelled)
  array := fun op w => M.array op w.value ∧ w.isLabelled = false
  call := fun method w =>
    M.call method w.value ∧ w.isLabelled = (rules.isSourceMethod method && !rules.isSanitizer method)
  parameter := fun x v => M.parameter x v.value ∧ v.isLabelled = false

namespace Taint

variable {Ω : Type} {a b : Taint} {v : Labelled Ω}

/-- What is labelled is not taken for trusted. -/
def Allows (a : Taint) (v : Labelled Ω) : Prop := v.isLabelled = true → a ≠ notTainted

theorem allows_of_not_labelled (h : v.isLabelled = false) : a.Allows v := by
  intro hv
  rw [h] at hv
  cases hv

theorem unknown_allows (v : Labelled Ω) : unknown.Allows v := fun _ h => by cases h

theorem ne_notTainted : a ≠ notTainted ↔ a = tainted ∨ a = unknown := by
  cases a <;> decide

theorem merge_eq_notTainted : a.merge b = notTainted ↔ a = notTainted ∧ b = notTainted := by
  cases a <;> cases b <;> decide

theorem merge_allows (h : a.Allows v ∨ b.Allows v) : (a.merge b).Allows v := by
  intro hv hmerge
  obtain ⟨ha, hb⟩ := merge_eq_notTainted.1 hmerge
  exact h.elim (fun h => h hv ha) fun h => h hv hb

theorem widenValue_allows (h : b.Allows v) : (State.widenValue Domain.taint a b).Allows v := by
  rw [widenValue_eq]
  exact merge_allows (.inr h)

/-- A merge of several values is trusted if all of them are. -/
theorem foldl_merge_eq_notTainted {as : List Taint} {start : Taint} :
    as.foldl merge start = notTainted ↔ start = notTainted ∧ ∀ a ∈ as, a = notTainted := by
  induction as generalizing start with
  | nil => simp
  | cons a as ih => rw [List.foldl_cons, ih, merge_eq_notTainted, List.forall_mem_cons, and_assoc]

end Taint

namespace Analysis.TaintAnalysis

variable {Ω : Type} {rules : TaintRules} {ctx : Context Taint} {m : Machine Taint}

/-- Labelled values are in variables that are not taken for trusted. -/
def reading (Ω : Type) (owner : Symbol) : Reading Taint (Labelled Ω) :=
  .pointwise Domain.taint owner Taint.Allows fun _ => True

/-! ### Origins are notes on the side -/

/-- The value is known and nothing but origins and hits changes. -/
def Yields (a : Taint) (m : Machine Taint) (b : Taint) (m' : Machine Taint) : Prop :=
  b = a ∧ m'.state = m.state ∧ m.SameNotes m'

theorem ensures_setOrigins (op : OperationId) (origins : FinSet SymbolAccess) (m : Machine Taint)
    {Q : Unit → Machine Taint → Prop} (h : ∀ m', m'.state = m.state → m.SameNotes m' → Q () m') :
    Visit.Ensures (Visit.setOrigins op origins) m Q := by
  unfold Visit.setOrigins
  rw [Visit.ensures_modifyNotes]
  exact h _ rfl ⟨rfl, rfl, rfl, rfl⟩

theorem ensures_bringIn (symbol : Symbol) (op : Operation) (m : Machine Taint) :
    Visit.Ensures (bringIn ctx symbol op) m (Yields .tainted m) := by
  unfold bringIn
  rw [Visit.ensures_bind]
  refine ensures_setOrigins _ _ m fun m' hstate hnotes => ?_
  rw [Visit.ensures_pure]
  exact ⟨rfl, hstate, hnotes⟩

theorem ensures_passOn (op : Operation) (v : Taint) (m : Machine Taint) :
    Visit.Ensures (passOn op v) m (Yields v m) := by
  unfold passOn
  rw [Visit.ensures_bind]
  refine Visit.ensures_originsOfAll fun origins => ?_
  rw [Visit.ensures_bind]
  refine ensures_setOrigins _ _ m fun m' hstate hnotes => ?_
  rw [Visit.ensures_pure]
  exact ⟨rfl, hstate, hnotes⟩

/-- A variable has the value that the state has for it. -/
theorem ensures_reference {op : Operation} {x : Symbol} (hx : op.symbol? = some x) (m : Machine Taint) :
    Visit.Ensures (reference rules ctx op (some (.localVar x ctx.owner))) m
      (Yields (State.valueOr Domain.taint m.state (.localVar x ctx.owner)) m) := by
  have field : fieldRead? op = none := by
    cases op <;> first | rfl | cases hx
  unfold reference
  rw [field]
  unfold readEntity
  simp only [Visit.ensures_bind, Visit.ensures_entityOriginsOf]
  refine ensures_setOrigins _ _ m fun m' hstate hnotes => ?_
  rw [Visit.ensures_state, Visit.ensures_pure]
  exact ⟨by rw [hstate], hstate, hnotes⟩

/-- A store into a variable. -/
theorem ensures_assign (op : Operation) (x owner : Symbol) (v : Taint) (m : Machine Taint) :
    Visit.Ensures (assign op (some (.localVar x owner)) v) m fun b m' =>
      b = v ∧ m'.state = m.state.insert (.localVar x owner) v ∧ m.SameNotes m' := by
  refine (assign_writes op _ v m).mono fun b m' after => ?_
  obtain ⟨rfl, _, _, rfl⟩ := after
  exact ⟨rfl, State.write_of_isMethodLocal Domain.taint b m.state (e := .localVar x owner) rfl, rfl, rfl, rfl, rfl⟩

/-- Hits are notes on the side, too. -/
theorem ensures_recordHits (call : Call Taint) (m : Machine Taint) :
    Visit.Ensures (recordHits rules ctx call) m fun _ m' => m'.state = m.state ∧ m.SameNotes m' := by
  have frame : Visit.Frame fun m m' : Machine Taint => m'.state = m.state ∧ m.SameNotes m' :=
    { refl := fun m => ⟨rfl, .refl m⟩
      trans := fun h h' => ⟨h'.1.trans h.1, h.2.trans h'.2⟩
      ledger := fun _ _ => ⟨rfl, rfl, rfl, rfl, rfl⟩
      hits := fun _ _ => ⟨rfl, rfl, rfl, rfl, rfl⟩
      callees := fun _ _ => ⟨rfl, rfl, rfl, rfl, rfl⟩ }
  exact recordHits_relates frame.toSteady frame.hits rules ctx call m

/-! ### The hooks -/

variable {M : Meaning Ω}

/-- The result of a call that is neither a sanitizer nor a source carries no label. -/
theorem result_allows {method : Symbol} {w : Labelled Ω} (hw : (M.withLabels rules).call method w) {a : Taint}
    (h : rules.isSanitizer method = true ∨ rules.isSourceMethod method = false) : a.Allows w := by
  refine Taint.allows_of_not_labelled (hw.2.trans ?_)
  rcases h with h | h
  · rw [h, Bool.not_true, Bool.and_false]
  · rw [h, Bool.false_and]

/-- Code that is not known may store anything. -/
theorem escapes_sound (owner : Symbol) : (reading Ω owner).Escapes (taint rules) owner :=
  Reading.escapes_pointwise (A := taint rules) (fun _ _ _ => rfl) fun _ => Taint.unknown_allows

/-- Whatever a call notes on the side, it leaves labelled values where they may be, and its result
allows a label if the method brings one in. -/
def CallSound (M : Meaning Ω) (rules : TaintRules) (owner : Symbol) (method : Symbol) (m : Machine Taint) (a : Taint)
    (m' : Machine Taint) : Prop :=
  m.SameNotes m' ∧ ∀ σ w, (reading Ω owner).fits m.state σ → (M.withLabels rules).call method w →
    (reading Ω owner).fits m'.state σ ∧ a.Allows w

theorem CallSound.of_same {owner method : Symbol} {a : Taint} {m' : Machine Taint} (hstate : m'.state = m.state)
    (hnotes : m.SameNotes m') (result : ∀ w, (M.withLabels rules).call method w → a.Allows w) :
    CallSound M rules owner method m a m' :=
  ⟨hnotes, fun _ w hσ hw => ⟨hstate ▸ hσ, result w hw⟩⟩

theorem CallSound.trans {owner method : Symbol} {a b : Taint} {m₁ m₂ : Machine Taint}
    (h₁ : CallSound M rules owner method m a m₁) (h₂ : CallSound M rules owner method m₁ b m₂) :
    CallSound M rules owner method m b m₂ :=
  ⟨h₁.1.trans h₂.1, fun σ w hσ hw => h₂.2 σ w (h₁.2 σ w hσ hw).1 hw⟩

section Calls

variable (M)

/-- A call of a method that is not a source is not followed. -/
theorem usual_sound (handling : ctx.config.calls.handling = .none) {usual : Call Taint → Visit Taint Taint}
    (husual : IsUsual (taint rules) ctx usual) (call : Call Taint) (m : Machine Taint)
    (passed : passedStorage call = []) (source : rules.isSourceMethod call.method = false) :
    Visit.Ensures (usual call) m (CallSound M rules ctx.owner call.method m) := by
  rw [handleCall_eq_callOpaquely handling husual]
  refine (Dataflow.invoke_sound (escapes_sound ctx.owner) (M := M.withLabels rules) call [] m trivial passed
    fun _ _ w _ hw => result_allows hw (.inr source)).mono fun a m' h => ?_
  obtain ⟨-, hnotes, hsound⟩ := h
  exact ⟨hnotes, fun σ w hσ hw => hsound σ σ w hσ ⟨fun _ _ => rfl, fun _ => id⟩ hw⟩

/-- What a call does once hits are noted, if the method is no sanitizer. -/
theorem afterHits_sound (handling : ctx.config.calls.handling = .none) {usual : Call Taint → Visit Taint Taint}
    (husual : IsUsual (taint rules) ctx usual) (call : Call Taint) (m : Machine Taint)
    (passed : passedStorage call = []) :
    Visit.Ensures (do
      if rules.isSourceMethod call.method then bringIn ctx call.method call.operation
      else
        let v ← usual call
        if v = .tainted then passOn call.operation v
        else
          Visit.setOrigins call.operation.id FinSet.empty
          return v) m (CallSound M rules ctx.owner call.method m) := by
  split
  · refine (ensures_bringIn _ _ m).mono fun a m' h => ?_
    obtain ⟨rfl, hstate, hnotes⟩ := h
    exact .of_same hstate hnotes fun w _ _ h => by cases h
  · rename_i hsource
    rw [Visit.ensures_bind]
    refine (usual_sound M handling husual call m passed (by simpa using hsource)).mono fun a m₁ h => ?_
    have result : ∀ w, (M.withLabels rules).call call.method w → a.Allows w :=
      fun w hw => result_allows hw (.inr (by simpa using hsource))
    split
    · refine (ensures_passOn _ a m₁).mono fun b m₂ h' => ?_
      obtain ⟨rfl, hstate, hnotes⟩ := h'
      exact h.trans (.of_same hstate hnotes result)
    · rw [Visit.ensures_bind]
      refine ensures_setOrigins _ _ m₁ fun m₂ hstate hnotes => ?_
      rw [Visit.ensures_pure]
      exact h.trans (.of_same hstate hnotes result)

/-- A call that gets no variable by reference. -/
theorem invoke_sound (handling : ctx.config.calls.handling = .none) {usual : Call Taint → Visit Taint Taint}
    (husual : IsUsual (taint rules) ctx usual) (call : Call Taint) (m : Machine Taint)
    (passed : passedStorage call = []) :
    Visit.Ensures (invoke rules ctx usual call) m (CallSound M rules ctx.owner call.method m) := by
  unfold invoke
  dsimp only
  split
  · rename_i hsanitizer
    rw [Visit.ensures_bind]
    refine ensures_setOrigins _ _ m fun m' hstate hnotes => ?_
    rw [Visit.ensures_pure]
    exact .of_same hstate hnotes fun w hw => result_allows hw (.inl hsanitizer)
  · split
    · rw [Visit.ensures_bind]
      refine (ensures_recordHits call m).mono fun _ m₁ h => ?_
      refine (afterHits_sound M handling husual call m₁ passed).mono fun b m₂ h' => ?_
      exact ⟨h.2.trans h'.1, fun σ w hσ => h'.2 σ w (h.1 ▸ hσ)⟩
    · exact afterHits_sound M handling husual call m passed

end Calls

/-- Every hook keeps labelled values in variables that are not taken for trusted. -/
theorem reading_sound (M : Meaning Ω) (handling : ctx.config.calls.handling = .none) (entry : ctx.entry = none)
    {usual : Call Taint → Visit Taint Taint} (husual : IsUsual (taint rules) ctx usual) :
    (reading Ω ctx.owner).Sound .withValueCalls (M.withLabels rules) (taint rules) ctx usual where
  good_merge := fun _ _ _ _ => trivial
  good_widen := fun _ _ _ _ => trivial
  fits_merge := fun _ _ _ _ _ => Reading.fits_merge_of_values Taint.merge_self fun _ _ _ => Taint.merge_allows
  fits_widen := fun _ _ _ _ _ =>
    Reading.fits_widen_of_values Taint.merge_self fun _ _ _ => Taint.widenValue_allows
  initial := fun s h =>
    ⟨trivial, fun σ hσ => Reading.fits_initialState entry h hσ fun _ _ _ _ hv => Taint.allows_of_not_labelled hv.2⟩
  literal := fun _ _ _ _ _ _ _ hv => Taint.allows_of_not_labelled hv.2
  reference := by
    intro op x m hx _
    refine (ensures_reference hx m).mono fun a m' h => ?_
    obtain ⟨rfl, hstate, hnotes⟩ := h
    exact ⟨hstate, hnotes, fun σ v hσ hv => hσ x v hv⟩
  assign := by
    intro i target value x m a _ _
    refine (ensures_assign (.assignment i target value) x ctx.owner a m).mono fun b m' h => ?_
    obtain ⟨rfl, hstate, hnotes⟩ := h
    refine ⟨trivial, hnotes, fun σ v hσ ha _ => ⟨?_, ha⟩⟩
    rw [hstate]
    refine Reading.fits_insert hσ fun w hw => ?_
    rw [← Option.some.inj hw]
    exact ha
  binary := by
    intro i operator left right m a b _
    refine (ensures_passOn _ (a.merge b) m).mono fun c m' h => ?_
    obtain ⟨rfl, hstate, hnotes⟩ := h
    refine ⟨hstate, hnotes, ?_⟩
    rintro σ u v w - ⟨_, _, ha⟩ ⟨_, _, hb⟩ ⟨-, hw⟩ hlabel hmerge
    obtain ⟨rfl, rfl⟩ := Taint.merge_eq_notTainted.1 hmerge
    rw [hw, Bool.or_eq_true] at hlabel
    exact hlabel.elim (fun h => ha h rfl) fun h => hb h rfl
  convert := by
    intro _ i operand m a _
    refine (ensures_passOn _ a m).mono fun b m' h => ?_
    obtain ⟨rfl, hstate, hnotes⟩ := h
    refine ⟨hstate, hnotes, fun σ v w _ ha hw hlabel => ha ?_⟩
    rw [← hw.2]
    exact hlabel
  create := by
    intro _ i arguments m as _
    refine (ensures_passOn _ (as.foldl Taint.merge .notTainted) m).mono fun b m' h => ?_
    obtain ⟨rfl, hstate, hnotes⟩ := h
    refine ⟨hstate, hnotes, fun σ vs w _ has hw hlabel hfold => ?_⟩
    obtain ⟨-, hall⟩ := Taint.foldl_merge_eq_notTainted.1 hfold
    rw [hw.2] at hlabel
    obtain ⟨v, hv, hlabelled⟩ := List.any_eq_true.1 hlabel
    obtain ⟨a, ha, _, _, hallows⟩ := exists_of_mem_right has hv
    exact hallows hlabelled (hall a ha)
  createArray := fun h => by cases h
  invoke := by
    intro _ call xs m _ hnone passed
    obtain rfl := hnone rfl
    refine (invoke_sound M handling husual call m passed).mono fun b m' h => ?_
    obtain ⟨hnotes, hsound⟩ := h
    refine ⟨trivial, hnotes, fun σ σ' w hσ hover hw => ?_⟩
    obtain rfl : σ' = σ := funext fun y => hover.others y List.not_mem_nil
    exact hsound σ' w hσ hw
  forget := by
    intro x s s' _ hf
    obtain rfl := Except.ok.inj hf
    exact ⟨trivial, fun σ hσ => Reading.fits_erase hσ⟩

end Analysis.TaintAnalysis

namespace Analysis

/-- Whenever control is before an operation, a variable that holds a labelled value is tainted or
unknown there, and so is every operation that is evaluated to one from there on: for any rules and any
body over variables that calls methods by value, makes objects and converts values, in all of its
runs, whatever its operations compute. -/
theorem solve_taint {Ω : Type} {rules : TaintRules} {ctx : Context Taint} {ledger ledger' : Ledger Taint}
    {sol : Solution Taint} (h : ((taint rules).solve ctx).run ledger = (.ok sol, ledger')) (valid : ctx.graph.Valid)
    (within : ctx.graph.Within .withValueCalls) (distinct : ctx.graph.DistinctIds)
    (handling : ctx.config.calls.handling = .none) (entry : ctx.entry = none) (M : Meaning Ω) {b : Block}
    {op : Operation} {ops : List Operation} {σ : Store (Labelled Ω)}
    (hreached : Reached (M.withLabels rules) ctx.graph b (op :: ops) σ) :
    (∃ s, sol.stateBefore op.id = some s ∧ ∀ x v, σ x = some v → v.isLabelled = true →
      State.valueOr Domain.taint s (.localVar x ctx.owner) = .tainted ∨
        State.valueOr Domain.taint s (.localVar x ctx.owner) = .unknown) ∧
      ∀ ev, Emits (M.withLabels rules) (op :: ops) σ ev → ∀ v, ev.result = some v → v.isLabelled = true →
        sol.valueAt ev.operation.id = some .tainted ∨ sol.valueAt ev.operation.id = some .unknown := by
  have sound : ∀ usual, IsUsual (taint rules) ctx usual →
      (TaintAnalysis.reading Ω ctx.owner).Sound .withValueCalls (M.withLabels rules) (taint rules) ctx usual :=
    fun _ husual => TaintAnalysis.reading_sound M handling entry husual
  obtain ⟨⟨s, hbefore, hfits⟩, -⟩ :=
    run_explained sound valid within distinct h (fun _ _ _ _ _ _ => trivial) hreached
  refine ⟨⟨s, hbefore, fun x v hx hv => ?_⟩, fun ev hev v hresult hv => ?_⟩
  · exact Taint.ne_notTainted.1 (hfits x v hx hv)
  · obtain ⟨a, _, ha, hallows⟩ :=
      events_explained sound valid within distinct h (fun _ _ _ _ _ _ => trivial) hreached hev v hresult
    rw [Solution.valueAt, ha]
    exact (Taint.ne_notTainted.1 (hallows hv)).imp (congrArg some) (congrArg some)

/-! ### Untrusted and other data, stored in a row -/

namespace StoredInput

open TwoStores

/-- A method that reads what comes from outside. -/
def read : Symbol := Symbol.method "Input" "read" none

/-- That method is the only source. -/
def rules : TaintRules := ⟨FinSet.singleton ("Input", "read"), FinSet.empty, FinSet.empty, FinMap.empty⟩

/-- Stores what is read into `a` and a constant into `b`. The reference to `b` has the given
identifier. -/
def graph (number : UInt32) : Graph :=
  TwoStores.graph number [] (.invocation (info 1) read none []) (.literal (info 4) .null)

/-- The body is run as usual, and no call is followed. -/
def context (number : UInt32) : Context Taint := Context.start (graph number) Config.usual fun _ => none

/-- Values are all alike. -/
def meaning : Meaning Unit where
  literal := fun _ _ => True
  binary := fun _ _ _ _ _ => True
  conversion := fun _ _ _ => True
  creation := fun _ _ _ => True
  array := fun _ _ => True
  call := fun _ _ => True
  parameter := fun _ _ => True

/-- The store before the return. -/
def finish : Store (Labelled Unit) :=
  (Store.set (fun _ => none) first (some ⟨(), true⟩)).set second (some ⟨(), false⟩)

/-- Control comes to the return with a label on what is in `a`. -/
theorem reached (number : UInt32) :
    Reached (meaning.withLabels rules) (graph number)
      (block number (.invocation (info 1) read none []) (.literal (info 4) .null)) [.ret (info 6) none] finish := by
  have called : Step (meaning.withLabels rules) (.invocation (info 1) read none []) (List.map some [])
      (fun _ => none) (some ⟨(), true⟩) (fun _ => none) :=
    .call ⟨trivial, by decide +kernel⟩ ⟨fun _ _ => rfl, fun _ => id⟩
  exact TwoStores.reached (fun x v hx => by cases hx) (.step .nil called) (.step .nil (.literal ⟨trivial, rfl⟩))

end StoredInput

open StoredInput in
/-- With distinct identifiers `a` is tainted before the return. -/
theorem solve_taint_storedInput :
    ∃ sol ledger, ((taint rules).solve (context 3)).run (Ledger.start false) = (.ok sol, ledger) ∧
      (∃ s, sol.stateBefore ⟨6⟩ = some s ∧ ∀ x v, finish x = some v → v.isLabelled = true →
        State.valueOr Domain.taint s (.localVar x (graph 3).owner) = .tainted ∨
          State.valueOr Domain.taint s (.localVar x (graph 3).owner) = .unknown) ∧
        ∀ ev, Emits (meaning.withLabels rules) [.ret (TwoStores.info 6) none] finish ev →
          ∀ v, ev.result = some v → v.isLabelled = true →
            sol.valueAt ev.operation.id = some .tainted ∨ sol.valueAt ev.operation.id = some .unknown := by
  obtain ⟨sol, ledger, h⟩ :=
    exists_of_isOk (r := ((taint rules).solve (context 3)).run (Ledger.start false)) (by decide +kernel)
  exact ⟨sol, ledger, h, solve_taint h (by decide +kernel) (by decide +kernel) (by decide +kernel) rfl rfl meaning
    (StoredInput.reached 3)⟩

open StoredInput in
/-- If the reference to `b` has the identifier of the one to `a`, it is taken for `a`: before the
return `a` is trusted, but what it holds is labelled. -/
theorem solve_taint_mistakes_reference :
    ∃ sol ledger, ((taint rules).solve (context 0)).run (Ledger.start false) = (.ok sol, ledger) ∧
      (graph 0).Valid ∧ (graph 0).Within .withValueCalls ∧ (context 0).config.calls.handling = .none ∧
        (context 0).entry = none ∧
          ∃ b s v, Reached (meaning.withLabels rules) (graph 0) b [.ret (TwoStores.info 6) none] finish ∧
            sol.stateBefore ⟨6⟩ = some s ∧ finish TwoStores.first = some v ∧ v.isLabelled = true ∧
              State.valueOr Domain.taint s (.localVar TwoStores.first (graph 0).owner) = .notTainted := by
  have value : (((taint rules).solve (context 0)).run (Ledger.start false)).1.toOption.bind (fun sol =>
      (sol.stateBefore ⟨6⟩).map fun s =>
        State.valueOr Domain.taint s (.localVar TwoStores.first (graph 0).owner)) = some .notTainted := by
    decide +kernel
  obtain ⟨sol, ledger, s, h, hs, htrusted⟩ := exists_of_inspected value
  exact ⟨sol, ledger, h, by decide +kernel, by decide +kernel, rfl, rfl, _, s, ⟨(), true⟩, StoredInput.reached 0, hs,
    rfl, rfl, htrusted⟩

end Analysis

end Dataflow
