import Dataflow.Proofs.Copies.Partition
import Dataflow.Proofs.Variables.Boundary
import Dataflow.Proofs.Variables.Solution

/-!
# Copies hold the same value

Two variables that the copy analysis puts into one class before an operation hold the same
value there, whenever both have one, in all runs of a body over variables. What its operators and
calls compute does not matter, so this is proved for any meaning.

## What is proved

`reading_sound`: every hook of the analysis keeps classes a partition, and variables of a class
equal. A write detaches the target and lets it join the class of what was written, if that is the
value of a variable; the class is still that of the value because nothing was written in
between. From this `solve_copies` says it of solutions.
-/

namespace Dataflow

namespace Analysis.CopyAnalysis

variable {C : Type} {s s' t : State CopyClass} {e a : Entity} {σ σ' : Store C}

/-! ### Writes -/

/-- A fold that picks one element or another ends with one of them. -/
theorem mem_of_foldl_pick {α : Type} {f : Option α → α → Option α} (hf : ∀ x m, f x m = some m ∨ f x m = x)
    {l : List α} {start : Option α} {a : α} (h : l.foldl f start = some a) : start = some a ∨ a ∈ l := by
  induction l generalizing start with
  | nil => exact .inl h
  | cons m l ih =>
    rcases ih h with hstep | hmem
    · rcases hf start m with hpick | hkeep
      · rw [hpick, Option.some.injEq] at hstep
        exact .inr (hstep ▸ List.mem_cons_self)
      · exact .inl (hkeep ▸ hstep)
    · exact .inr (List.mem_cons_of_mem _ hmem)

/-- The anchor is another member of the class. -/
theorem mem_of_anchor? {c : CopyClass} (h : anchor? e c = some a) : a ∈ c.members ∧ a ≠ e := by
  unfold anchor? at h
  have hmem : a ∈ (c.members.erase e).toList := by
    refine (mem_of_foldl_pick (fun x m => ?_) h).resolve_left fun hnone => by cases hnone
    cases x with
    | none => exact .inl rfl
    | some b =>
      dsimp only
      split
      · exact .inl rfl
      · exact .inr rfl
  rw [FinSet.mem_toList, FinSet.mem_erase] at hmem
  exact ⟨hmem.2, hmem.1⟩

/-- A variable that is written to is detached, and may then join another member of the class. -/
theorem write_of_isMethodLocal (he : e.isMethodLocal = true) {c : CopyClass} (h : write e c s = .ok s') :
    ∃ t, detach e s = .ok t ∧ (s' = t ∨ ∃ a ∈ c.members, a ≠ e ∧ join e a t = .ok s') := by
  unfold write at h
  dsimp only at h
  obtain ⟨t, hdetach, h⟩ := Checked.bind_eq_ok.1 h
  rw [State.aliases_of_isMethodLocal t he, Entity.hasUnknownOwner_of_isMethodLocal he] at h
  obtain ⟨t', hnone, h⟩ := Checked.bind_eq_ok.1 h
  obtain rfl := Except.ok.inj hnone
  rw [if_neg Bool.false_ne_true] at h
  refine ⟨t, hdetach, ?_⟩
  cases ha : anchor? e c with
  | none =>
    rw [ha] at h
    exact .inl (Except.ok.inj h).symm
  | some a =>
    rw [ha] at h
    obtain ⟨hmem, hne⟩ := mem_of_anchor? ha
    exact .inr ⟨a, hmem, hne, h⟩

/-- An entity that escapes is detached, and so is what may be the same storage. -/
theorem write_singleton (h : write e (.singleton e) s = .ok s') :
    ∃ t, detach e s = .ok t ∧ detachAll (State.aliases e t) t = .ok s' := by
  have hanchor : anchor? e (.singleton e) = none := by
    have hempty : (FinSet.singleton e).erase e = FinSet.empty := FinSet.ext fun x => by
      rw [FinSet.mem_erase, FinSet.mem_singleton]
      exact iff_of_false (fun hx => hx.1 hx.2) (FinSet.not_mem_empty x)
    show ((FinSet.singleton e).erase e).toList.foldl _ _ = none
    rw [hempty]
    rfl
  unfold write at h
  rw [hanchor] at h
  dsimp only at h
  obtain ⟨t, hdetach, h⟩ := Checked.bind_eq_ok.1 h
  obtain ⟨t', hall, h⟩ := Checked.bind_eq_ok.1 h
  refine ⟨t, hdetach, ?_⟩
  rw [hall]
  split at h
  · exact h
  · exact h

/-! ### The reading -/

/-- Variables of one class that have values have the same one. -/
def reading (C : Type) (owner : Symbol) : Reading CopyClass C where
  good := Partition
  fits s σ := ∀ x y u v, σ x = some u → σ y = some v →
    Together s (.localVar x owner) (.localVar y owner) → u = v
  describes s σ c v := (∀ m ∈ c.members, classOf m s = c) ∧
    ∀ x, Entity.localVar x owner ∈ c.members → ∀ w, σ x = some w → w = v
  allowed _ := True

variable {owner : Symbol}

/-- The class of nothing describes any value. -/
theorem describes_unknown (v : C) : (reading C owner).describes s σ .unknown v :=
  ⟨fun m hm => absurd hm (FinSet.not_mem_empty m), fun _ hx => absurd hx (FinSet.not_mem_empty _)⟩

/-- The class of a variable describes what it holds. -/
theorem describes_classOf (h : Partition s) (hfits : (reading C owner).fits s σ) {x : Symbol} {v : C}
    (hx : σ x = some v) : (reading C owner).describes s σ (classOf (.localVar x owner) s) v := by
  obtain ⟨members, hclass, -, hall⟩ := h (.localVar x owner)
  refine ⟨fun m hm => ?_, fun y hy w hw => ?_⟩
  · rw [hclass] at hm ⊢
    exact hall m hm
  · exact (hfits x y v w hx hw hy).symm

/-- Detaching an entity keeps what is known of stores that differ at most there. -/
theorem fits_detach (h : Partition s) (hd : detach e s = .ok s') (hfits : (reading C owner).fits s σ)
    (hothers : ∀ y, Entity.localVar y owner ≠ e → σ' y = σ y) : (reading C owner).fits s' σ' := by
  intro x y u v hx hy htogether
  rcases (together_detach h hd).1 htogether with ⟨hxe, hye⟩ | ⟨hxe, hye, hold⟩
  · rw [← hye] at hxe
    cases hxe
    exact Option.some.inj (hx.symm.trans hy)
  · rw [hothers x hxe] at hx
    rw [hothers y hye] at hy
    exact hfits x y u v hx hy hold

theorem detachAll_keeps {l : List Entity} (h : Partition s) (hd : detachAll l s = .ok s') :
    Partition s' ∧ ∀ σ, (reading C owner).fits s σ → (reading C owner).fits s' σ := by
  unfold detachAll at hd
  induction l generalizing s with
  | nil =>
    obtain rfl := Except.ok.inj hd
    exact ⟨h, fun σ hσ => hσ⟩
  | cons e l ih =>
    rw [List.foldlM_cons] at hd
    obtain ⟨t, hfirst, hrest⟩ := Checked.bind_eq_ok.1 hd
    obtain ⟨hpartition, hfits⟩ := ih (h.detach hfirst) hrest
    exact ⟨hpartition, fun σ hσ => hfits σ (fits_detach h hfirst hσ fun _ _ => rfl)⟩

/-- A variable that is written to gets the class of the value that it gets. -/
theorem assign_sound {x : Symbol} {c : CopyClass} (h : Partition s) (hw : write (.localVar x owner) c s = .ok s') :
    Partition s' ∧ ∀ σ v, (reading C owner).fits s σ → (reading C owner).describes s σ c v →
      (reading C owner).fits s' (σ.set x (some v)) := by
  obtain ⟨t, hdetach, hjoined⟩ := write_of_isMethodLocal rfl hw
  have others : ∀ (σ : Store C) v y, Entity.localVar y owner ≠ .localVar x owner → σ.set x (some v) y = σ y :=
    fun σ v y hy => Store.set_of_ne σ _ fun he => hy (he ▸ rfl)
  rcases hjoined with rfl | ⟨a, hmem, hne, hjoin⟩
  · exact ⟨h.detach hdetach, fun σ v hσ _ => fits_detach h hdetach hσ (others σ v)⟩
  · refine ⟨(h.detach hdetach).join (classOf_detach_self h hdetach) hjoin, fun σ v hσ hdescribes => ?_⟩
    obtain ⟨hclass, hvalues⟩ := hdescribes
    -- Whoever is in the class now holds the value: the target, and the members of the value's class.
    have holds : ∀ y w, σ.set x (some v) y = some w →
        Entity.localVar y owner = .localVar x owner ∨ Together t a (.localVar y owner) → w = v := by
      intro y w hy hin
      by_cases hyx : y = x
      · rw [hyx, Store.set_self] at hy
        exact (Option.some.inj hy).symm
      · rw [Store.set_of_ne σ _ hyx] at hy
        rcases hin with he | hin
        · cases he
          exact absurd rfl hyx
        · obtain ⟨hax, -⟩ | ⟨-, -, hold⟩ := (together_detach h hdetach).1 hin
          · exact absurd hax hne
          · unfold Together at hold
            rw [hclass a hmem] at hold
            exact hvalues y hold w hy
    intro y z u w hy hz htogether
    rcases (together_join (h.detach hdetach) hjoin).1 htogether with ⟨hiny, hinz⟩ | ⟨-, hold⟩
    · rw [holds y u hy hiny, holds z w hz hinz]
    · exact fits_detach h hdetach hσ (others σ v) y z u w hy hz hold

/-! ### The hooks -/

/-- In the beginning every entity is alone. -/
theorem classOf_initialState {ctx : Context CopyClass} (entry : ctx.entry = none) (h : copies.initialState ctx = .ok s)
    (e : Entity) : classOf e s = .singleton e := by
  rw [initialState_eq_defaultEntry entry] at h
  rcases valueOr_defaultEntry h e with ⟨-, hv⟩ | ⟨-, hv⟩
  · exact (Except.ok.inj hv).symm
  · exact hv

theorem initial_sound {ctx : Context CopyClass} (entry : ctx.entry = none)
    (h : copies.initialState ctx = .ok s) : Partition s ∧ ∀ σ, (reading C ctx.owner).fits s σ := by
  have alone := classOf_initialState entry h
  refine ⟨partition_of_singletons alone, fun σ x y u v hx hy htogether => ?_⟩
  unfold Together at htogether
  rw [alone] at htogether
  cases FinSet.mem_singleton.1 htogether
  exact Option.some.inj (hx.symm.trans hy)

/-- The end of a scope leaves a variable alone. -/
theorem forget_sound {x : Symbol} (h : Partition s) (hf : forget (.localVar x owner) s = .ok s') :
    Partition s' ∧ ∀ σ, (reading C owner).fits s σ → (reading C owner).fits s' (σ.set x none) := by
  obtain ⟨t, hdetach, same⟩ := classOf_forget h hf
  refine ⟨h.forget hf, ?_⟩
  intro σ hσ y z u v hy hz hyz
  unfold Together at hyz
  rw [same] at hyz
  refine fits_detach h hdetach hσ (fun y hne => ?_) y z u v hy hz hyz
  exact Store.set_of_ne σ none fun he => hne (he ▸ rfl)

/-- What escapes is alone afterwards. -/
theorem escapes_sound (owner : Symbol) : (reading C owner).Escapes copies owner where
  overwrite := by
    intro x s s' h hw
    obtain ⟨t, hdetach, hall⟩ := write_singleton hw
    rw [State.aliases_of_isMethodLocal t rfl] at hall
    obtain rfl := Except.ok.inj hall
    refine ⟨h.detach hdetach, fun σ v hσ => fits_detach h hdetach hσ fun y hne => ?_⟩
    exact Store.set_of_ne σ v fun he => hne (he ▸ rfl)
  others := by
    intro e s s' _ h hw
    obtain ⟨t, hdetach, hall⟩ := write_singleton hw
    have keeps : Partition s' ∧ ∀ σ, (reading C owner).fits t σ → (reading C owner).fits s' σ :=
      detachAll_keeps (h.detach hdetach) hall
    exact ⟨keeps.1, fun σ hσ => keeps.2 σ (fits_detach h hdetach hσ fun _ _ => rfl)⟩

/-- Every hook keeps classes a partition and variables of a class equal. -/
theorem reading_sound {ctx : Context CopyClass} (M : Meaning C) (handling : ctx.config.calls.handling = .none)
    (entry : ctx.entry = none) {usual : Call CopyClass → Visit CopyClass CopyClass}
    (husual : IsUsual copies ctx usual) :
    (reading C ctx.owner).Sound .withCalls M copies ctx usual where
  good_merge := fun s t hs ht => hs.merge ht
  good_widen := fun s t hs ht => widen_eq_merge s t ▸ hs.merge ht
  fits_merge := by
    intro s t σ hs ht hσ x y u v hx hy htogether
    obtain ⟨hleft, hright⟩ := (together_merge hs ht).1 htogether
    exact hσ.elim (fun h => h x y u v hx hy hleft) fun h => h x y u v hx hy hright
  fits_widen := by
    intro s t σ hs ht hσ x y u v hx hy htogether
    rw [show State.widen copies.domain s t = State.merge Domain.copies s t from widen_eq_merge s t] at htogether
    exact hσ x y u v hx hy ((together_merge hs ht).1 htogether).2
  initial := fun s h =>
    have ⟨hpartition, hfits⟩ := initial_sound entry h
    ⟨hpartition, fun σ _ => hfits σ⟩
  literal := fun _ _ _ _ v _ _ _ => describes_unknown v
  reference := by
    intro op x m _ good
    show Visit.Ensures (do return State.valueOr Domain.copies (← Visit.state) _) m _
    rw [Visit.ensures_bind, Visit.ensures_state, Visit.ensures_pure]
    exact ⟨rfl, .refl m, fun σ v hσ hx => describes_classOf good hσ hx⟩
  assign := by
    intro i target value x m a _ good
    show Visit.Ensures (CopyAnalysis.assign (some (.localVar x ctx.owner)) a) m _
    unfold CopyAnalysis.assign
    rw [Visit.ensures_bind, Visit.ensures_update]
    intro s hs
    rw [Visit.ensures_bind, Visit.ensures_state, Visit.ensures_pure]
    obtain ⟨hpartition, hfits⟩ := assign_sound (C := C) good hs
    refine ⟨hpartition, ⟨rfl, rfl, rfl, rfl⟩, fun σ v hσ hdescribes _ => ?_⟩
    have hafter := hfits σ v hσ hdescribes
    exact ⟨hafter, describes_classOf hpartition hafter (Store.set_self σ x _)⟩
  binary := by
    intro i operator left right m a b _
    show Visit.Ensures (pure CopyClass.unknown) m _
    rw [Visit.ensures_pure]
    exact ⟨rfl, .refl m, fun _ _ _ w _ _ _ _ => describes_unknown w⟩
  convert := fun h => by cases h
  create := fun h => by cases h
  createArray := fun h => by cases h
  invoke := by
    intro _ call xs m good _ passed
    rw [handleCall_eq_callOpaquely handling husual]
    exact invoke_sound (escapes_sound ctx.owner) call xs m good passed fun _ _ w _ _ => describes_unknown w
  forget := fun x s s' good h => forget_sound good h

/-! ### Solutions -/

/-- The class of whatever is evaluated in a run is that of its copies afterwards. -/
theorem events_explained {ctx : Context CopyClass} {ledger ledger' : Ledger CopyClass}
    {sol : Solution CopyClass} (h : (copies.solve ctx).run ledger = (.ok sol, ledger'))
    (valid : ctx.graph.Valid) (within : ctx.graph.Within .withCalls) (distinct : ctx.graph.DistinctIds)
    (handling : ctx.config.calls.handling = .none) (entry : ctx.entry = none) {M : Meaning C} {b : Block}
    {ops : List Operation} (hreached : Reached M ctx.graph b ops σ) {ev : Event C} (hev : Emits M ops σ ev) :
    (reading C ctx.owner).Explains sol.values ev :=
  Dataflow.events_explained (fun _ husual => reading_sound M handling entry husual) valid within distinct h
    (fun _ _ _ _ _ _ => trivial) hreached hev

end Analysis.CopyAnalysis

namespace Analysis

/-- Whenever control is before an operation, variables of one class that have values have the same
one: for any body over variables with calls, in all of its runs, whatever its operators and
calls compute. -/
theorem solve_copies {C : Type} {ctx : Context CopyClass} {ledger ledger' : Ledger CopyClass}
    {sol : Solution CopyClass} (h : (copies.solve ctx).run ledger = (.ok sol, ledger'))
    (valid : ctx.graph.Valid) (within : ctx.graph.Within .withCalls) (distinct : ctx.graph.DistinctIds)
    (handling : ctx.config.calls.handling = .none) (entry : ctx.entry = none) (M : Meaning C) {b : Block}
    {op : Operation} {ops : List Operation} {σ : Store C} (hreached : Reached M ctx.graph b (op :: ops) σ) :
    ∃ s, sol.stateBefore op.id = some s ∧ ∀ x y u v, σ x = some u → σ y = some v →
      (State.valueOr Domain.copies s (.localVar x ctx.owner)).isKnown = true →
        (State.valueOr Domain.copies s (.localVar x ctx.owner)).contains (.localVar y ctx.owner) = true → u = v := by
  obtain ⟨⟨s, hbefore, hfits⟩, -⟩ :=
    run_explained (fun _ husual => CopyAnalysis.reading_sound M handling entry husual) valid within distinct h
      (fun _ _ _ _ _ _ => trivial) hreached
  exact ⟨s, hbefore, fun x y u v hx hy _ hcontains => hfits x y u v hx hy hcontains⟩

/-! ### Two parameters, stored in a row -/

namespace StoredParameters

open TwoStores

/-- A parameter. -/
def parameter (name : String) : Symbol := ⟨name, .parameter, none, none, .value, 0⟩

/-- Stores `p` into `a` and `q` into `b`. The reference to `b` has the given identifier. -/
def graph (number : UInt32) : Graph :=
  TwoStores.graph number [parameter "p", parameter "q"] (.parameterRef (info 1) (parameter "p"))
    (.parameterRef (info 4) (parameter "q"))

/-- The body is run as usual, and no call is followed. -/
def context (number : UInt32) : Context CopyClass := Context.start (graph number) Config.usual fun _ => none

/-- Parameters hold anything. -/
def meaning : Meaning Bool where
  literal := fun _ _ => False
  binary := fun _ _ _ _ _ => False
  conversion := fun _ _ _ => False
  creation := fun _ _ _ => False
  array := fun _ _ => False
  call := fun _ _ => False
  parameter := fun _ _ => True

/-- Only `p` is true. -/
def start : Store Bool := fun x =>
  if x = parameter "p" then some true else if x = parameter "q" then some false else none

/-- Control comes to the return with different values in `a` and in `b`. -/
theorem reached (number : UInt32) :
    Reached meaning (graph number)
      (block number (.parameterRef (info 1) (parameter "p")) (.parameterRef (info 4) (parameter "q")))
      [.ret (info 6) none] ((start.set first (some true)).set second (some false)) := by
  refine TwoStores.reached (fun x v hx => ⟨?_, trivial⟩) (.step .nil (.parameterRef rfl))
    (.step .nil (.parameterRef rfl))
  unfold start at hx
  split at hx
  · exact ‹x = _› ▸ List.mem_cons_self
  · split at hx
    · exact ‹x = parameter "q"› ▸ List.mem_cons_of_mem _ List.mem_cons_self
    · cases hx

end StoredParameters

open StoredParameters in
/-- With distinct identifiers `a` and `b` have different classes before the return. -/
theorem solve_copies_storedParameters :
    ∃ sol ledger, (copies.solve (context 3)).run (Ledger.start false) = (.ok sol, ledger) ∧
      ∃ s, sol.stateBefore ⟨6⟩ = some s ∧ ∀ x y u v,
        ((start.set TwoStores.first (some true)).set TwoStores.second (some false)) x = some u →
        ((start.set TwoStores.first (some true)).set TwoStores.second (some false)) y = some v →
          (State.valueOr Domain.copies s (.localVar x (graph 3).owner)).isKnown = true →
            (State.valueOr Domain.copies s (.localVar x (graph 3).owner)).contains
              (.localVar y (graph 3).owner) = true → u = v := by
  obtain ⟨sol, ledger, h⟩ :=
    exists_of_isOk (r := (copies.solve (context 3)).run (Ledger.start false)) (by decide +kernel)
  exact ⟨sol, ledger, h, solve_copies h (by decide +kernel) (by decide +kernel) (by decide +kernel) rfl rfl meaning
    (StoredParameters.reached 3)⟩

open StoredParameters in
/-- If the reference to `b` has the identifier of the one to `a`, it is taken for `a`: before the
return `a` and `q` are in one class, but `a` holds what `p` holds. -/
theorem solve_copies_mistakes_reference :
    ∃ sol ledger, (copies.solve (context 0)).run (Ledger.start false) = (.ok sol, ledger) ∧
      (graph 0).Valid ∧ (graph 0).Within .withCalls ∧ (context 0).config.calls.handling = .none ∧
        ∃ b σ s, Reached meaning (graph 0) b [.ret (TwoStores.info 6) none] σ ∧
          sol.stateBefore ⟨6⟩ = some s ∧ σ TwoStores.first = some true ∧ σ (parameter "q") = some false ∧
            (State.valueOr Domain.copies s (.localVar TwoStores.first (graph 0).owner)).isKnown = true ∧
              (State.valueOr Domain.copies s (.localVar TwoStores.first (graph 0).owner)).contains
                (.localVar (parameter "q") (graph 0).owner) = true := by
  have classes : ((copies.solve (context 0)).run (Ledger.start false)).1.toOption.bind (fun sol =>
      (sol.stateBefore ⟨6⟩).map fun s => State.valueOr Domain.copies s (.localVar TwoStores.first (graph 0).owner)) =
        some (.known (FinSet.ofList [.localVar TwoStores.first (graph 0).owner,
          .localVar (parameter "q") (graph 0).owner])) := by
    decide +kernel
  obtain ⟨sol, ledger, s, h, hs, hclass⟩ := exists_of_inspected classes
  refine ⟨sol, ledger, h, by decide +kernel, by decide +kernel, rfl, _, _, s, StoredParameters.reached 0, hs, rfl, rfl,
    ?_, ?_⟩
  · rw [hclass]
    rfl
  · rw [hclass]
    decide +kernel

end Analysis

end Dataflow
