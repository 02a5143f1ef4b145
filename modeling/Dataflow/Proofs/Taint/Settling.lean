import Dataflow.Analysis.Taint
import Dataflow.Proofs.Lattice.Chains
import Dataflow.Proofs.Settling.Bounds

/-!
# Taint keeps to bounds

Which data is untrusted has no part in how storage is named, and where it comes from and goes to is noted on
the side. So the taint analysis can do with any number of values, and it owes only that its visits succeed
and name no more than they are given.

## What is proved

`taint_keeps`, for all rules. Visits that only note origins and hits are told from those that write to the
state (`Aside`).
-/

namespace Dataflow

namespace Analysis

namespace TaintAnalysis

open Scope Visit

variable {rules : TaintRules} {ctx : Context Taint} {usual : Call Taint → Visit Taint Taint}

/-- Nothing but origins and hits changes. -/
structure Aside (m m' : Machine Taint) : Prop where
  /-- The state. -/
  state : m'.state = m.state
  /-- The notes. -/
  notes : m.SameNotes m'
  /-- The ledger. -/
  ledger : m'.ledger = m.ledger

theorem Aside.refl (m : Machine Taint) : Aside m m := ⟨rfl, .refl m, rfl⟩

theorem Aside.trans {m m' m'' : Machine Taint} (h : Aside m m') (h' : Aside m' m'') : Aside m m'' :=
  ⟨h'.state.trans h.state, h.notes.trans h'.notes, h'.ledger.trans h.ledger⟩

/-! ### Origins and hits -/

theorem yields_setOrigins (op : OperationId) (origins : FinSet SymbolAccess) (m : Machine Taint) :
    Yields (setOrigins op origins) m fun _ m' => Aside m m' := by
  unfold setOrigins
  rw [yields_modifyNotes]
  exact ⟨rfl, ⟨rfl, rfl, rfl, rfl⟩, rfl⟩

theorem yields_addEntityOrigins (e : Entity) (origins : FinSet SymbolAccess) (m : Machine Taint) :
    Yields (addEntityOrigins e origins) m fun _ m' => Aside m m' := by
  unfold addEntityOrigins
  rw [yields_modifyNotes]
  exact ⟨rfl, ⟨rfl, rfl, rfl, rfl⟩, rfl⟩

theorem yields_bringIn (symbol : Symbol) (op : Operation) (m : Machine Taint) :
    Yields (bringIn ctx symbol op) m fun _ m' => Aside m m' := by
  unfold bringIn
  rw [yields_bind]
  refine (yields_setOrigins _ _ m).mono fun _ m' h => ?_
  rw [yields_pure]
  exact h

theorem yields_passOn (op : Operation) (v : Taint) (m : Machine Taint) :
    Yields (passOn op v) m fun _ m' => Aside m m' := by
  unfold passOn originsOfAll
  simp only [yields_bind, yields_notes, yields_pure]
  exact yields_setOrigins _ _ m

theorem yields_readEntity (op : Operation) (e : Option Entity) (m : Machine Taint) :
    Yields (readEntity op e) m fun _ m' => Aside m m' := by
  unfold readEntity entityOriginsOf
  simp only [yields_bind, yields_notes, yields_pure]
  refine (yields_setOrigins _ _ m).mono fun _ m' h => ?_
  cases e with
  | none =>
    rw [yields_pure]
    exact h
  | some e =>
    rw [yields_bind, yields_state, yields_pure]
    exact h

theorem yields_reference (op : Operation) (e : Option Entity) (m : Machine Taint) :
    Yields (reference rules ctx op e) m fun _ m' => Aside m m' := by
  unfold reference
  split
  · split
    · exact yields_bringIn _ op m
    · exact yields_readEntity op e m
  · exact yields_readEntity op e m

theorem yields_recordHits (call : Call Taint) (m : Machine Taint) :
    Yields (recordHits rules ctx call) m fun _ m' => Aside m m' := by
  unfold recordHits
  refine yields_forM (P := Aside m) ?_ (.refl m)
  rintro ⟨a, position⟩ - m₁ h
  unfold recordHit
  dsimp only
  split
  · simp only [originsOf, yields_bind, yields_notes, yields_pure, yields_modifyHits]
    exact h.trans ⟨rfl, ⟨rfl, rfl, rfl, rfl⟩, rfl⟩
  · rw [yields_pure]
    exact h

/-! ### The hooks -/

/-- Visits that only note origins and hits. -/
theorem keeps_of_aside {ι : Type} {admits : Bounds Taint → Set Entity → ι → Prop} {x : ι → Visit Taint Taint}
    (h : ∀ i m, Yields (x i) m fun _ m' => Aside m m') :
    (loose Taint).Keeps Domain.taint admits x (loose Taint).Says := by
  refine Keeps.of_covered loose_few Set.finite_empty fun B X i m _ _ _ hm _ => ?_
  refine (h i m).mono fun a m' h' => ⟨h'.notes, h'.ledger, h'.state ▸ hm, fun M => ?_⟩
  exact ⟨Set.mem_univ _, Set.empty_subset _⟩

theorem assign_keeps (op : Operation) :
    (loose Taint).Keeps Domain.taint (fun B X i => (loose Taint).Names B X i.1 ∧ (loose Taint).Says B X i.2)
      (fun i : Option Entity × Taint => assign op i.1 i.2) (loose Taint).Says := by
  refine Keeps.of_covered loose_few Set.finite_empty fun B X i m hB _ hi hm _ => ?_
  obtain ⟨target, v⟩ := i
  obtain ⟨he, hv⟩ := hi
  have said : ∀ M, (loose Taint).Says ⟨fun _ => Set.univ, Set.univ, M⟩ X v := fun _ => ⟨Set.mem_univ _, Set.empty_subset _⟩
  unfold assign originsOf
  cases target with
  | none =>
    dsimp only
    split
    -- The origins are those of the value or none.
    all_goals
      simp only [yields_bind, yields_notes, yields_pure]
      refine (yields_setOrigins op.id _ m).mono fun _ m₁ h => ?_
      exact ⟨h.notes, h.ledger, h.state ▸ hm, said⟩
  | some e =>
    dsimp only
    split
    all_goals
      simp only [yields_bind, yields_notes, yields_pure, yields_state, yields_setState]
      refine (yields_addEntityOrigins e _ m).mono fun _ m₁ h₁ => ?_
      refine (yields_setOrigins op.id _ _).mono fun _ m₂ h₂ => ?_
      refine ⟨h₁.notes.trans ⟨h₂.notes.resolver, h₂.notes.values, h₂.notes.entities, h₂.notes.before⟩,
        h₂.ledger.trans h₁.ledger, ?_, said⟩
      rw [h₂.state, h₁.state]
      exact hm.write (fun _ => Set.empty_subset _) (fun _ _ => Set.empty_subset _) (hB (he e rfl)) (Set.empty_subset _)

/-- The state keeps to bounds, and names and the ledger are as before. -/
structure Kept (B : Bounds Taint) (X : Set Entity) (m m' : Machine Taint) : Prop where
  /-- The notes. -/
  notes : m.SameNotes m'
  /-- The ledger. -/
  ledger : m'.ledger = m.ledger
  /-- The state. -/
  fits : (loose Taint).Fits Domain.taint B X m'.state

theorem Kept.aside {B : Bounds Taint} {X : Set Entity} {m m₁ m₂ : Machine Taint} (h : Kept B X m m₁) (h' : Aside m₁ m₂) :
    Kept B X m m₂ :=
  ⟨h.notes.trans h'.notes, h'.ledger.trans h.ledger, h'.state ▸ h.fits⟩

/-- A call notes origins and hits besides what the usual handling does. -/
theorem invoke_keeps {admits : Bounds Taint → Set Entity → Call Taint → Prop}
    (husual : (loose Taint).Keeps Domain.taint admits usual (loose Taint).Says) :
    (loose Taint).Keeps Domain.taint admits (invoke rules ctx usual) (loose Taint).Says := by
  intro B hB
  obtain ⟨B', small, within, h⟩ := husual B hB
  refine ⟨B'.withResults .univ, ⟨small.values, trivial, small.names⟩, within.trans (B'.within_withResults _),
    fun X hX call m hcall fits hrunning => ?_⟩
  -- What happens once hits are noted.
  have rest : ∀ m₁, Aside m m₁ → Yields (do
      if rules.isSourceMethod call.method then bringIn ctx call.method call.operation
      else
        let v ← usual call
        if v = .tainted then passOn call.operation v
        else
          setOrigins call.operation.id FinSet.empty
          return v) m₁ fun _ m' => Kept B' X m m' := by
    intro m₁ h₁
    split
    · refine (yields_bringIn _ _ m₁).mono fun v m₂ h₂ => ?_
      exact Kept.aside ⟨h₁.notes, h₁.ledger, h₁.state ▸ fits.mono within⟩ h₂
    · rw [yields_bind]
      refine (h X hX call m₁ hcall (h₁.state ▸ fits) (by rw [h₁.ledger]; exact hrunning)).mono
        fun v m₂ after => ?_
      obtain ⟨hnotes, hledger, fits₂, -⟩ := after
      have kept : Kept B' X m m₂ := ⟨h₁.notes.trans hnotes, hledger.trans h₁.ledger, fits₂⟩
      split
      · exact (yields_passOn _ v m₂).mono fun w m₃ h₃ => kept.aside h₃
      · rw [yields_bind]
        refine (yields_setOrigins _ _ m₂).mono fun _ m₃ h₃ => ?_
        rw [yields_pure]
        exact kept.aside h₃
  have whole : Yields (invoke rules ctx usual call) m fun _ m' => Kept B' X m m' := by
    unfold invoke
    dsimp only
    split
    · rw [yields_bind]
      refine (yields_setOrigins _ _ m).mono fun _ m₁ h₁ => ?_
      rw [yields_pure]
      exact ⟨h₁.notes, h₁.ledger, h₁.state ▸ fits.mono within⟩
    · split
      · rw [yields_bind]
        exact (yields_recordHits call m).mono fun _ m₁ h₁ => rest m₁ h₁
      · exact rest m (.refl m)
  exact whole.mono fun v m' kept =>
    ⟨kept.notes, kept.ledger, kept.fits.mono (B'.within_withResults _), .inr (Set.mem_univ _), Set.empty_subset _⟩

end TaintAnalysis

open Scope TaintAnalysis

variable {rules : TaintRules} {ctx : Context Taint} {usual : Call Taint → Visit Taint Taint}

/-- The taint analysis keeps to bounds. -/
theorem taint_keeps (handling : ctx.config.calls.handling = .none) (husual : IsUsual (taint rules) ctx usual) :
    (loose Taint).Sound (taint rules) ctx usual := by
  have few : ∀ T, (loose Taint).few T := loose_few
  have missing : ∀ e, (loose Taint).mentions (Domain.taint.missing e) ⊆ {e} := fun _ => Set.empty_subset _
  have escapes : (loose Taint).Escapes (taint rules) := escapes_of_covered few fun X e he s hs =>
    ⟨_, rfl, hs.write missing (fun _ _ => Set.empty_subset _) he (Set.empty_subset _)⟩
  have unknown : (loose Taint).Keeps Domain.taint (fun _ _ _ => True) (fun op => pure ((taint rules).unknownValue op))
      (loose Taint).Says := .of_pure few fun _ _ _ _ => Set.empty_subset _
  exact {
    few_of_finite := fun _ _ => trivial
    mentions_finite := fun _ => Set.finite_empty
    mentions_missing := missing
    mentions_merge := fun _ _ => Set.empty_subset _
    mentions_widen := fun _ _ => Set.empty_subset _
    descends := Taint.ranks.wellFounded_widenValue
    initial := exists_initialState fun _ _ => ⟨_, rfl⟩
    location := fun op _ _ => (Set.finite_singleton (ctx.locationOf op)).subset (by rintro _ ⟨_, _, rfl⟩; rfl)
    literal := fun _ _ => .of_pure few fun _ _ _ _ => Set.empty_subset _
    reference := fun op => keeps_of_aside (yields_reference op)
    assign := assign_keeps
    create := fun op => keeps_of_aside fun _ => yields_passOn op _
    createArray := fun op =>
      Keeps.of_pure few (f := fun _ => (taint rules).unknownValue op) fun _ _ _ _ => Set.empty_subset _
    binary := fun op _ => keeps_of_aside fun _ => yields_passOn op _
    convert := fun op => keeps_of_aside fun _ => yields_passOn op _
    invoke := invoke_keeps (keeps_usual handling husual escapes unknown)
    bottom := .of_pure few fun _ _ _ _ => Set.empty_subset _
    unknown := unknown
    forget := fun e => .of_update few fun _ _ _ s _ _ hs => ⟨_, rfl, hs.erase e⟩ }

end Analysis

end Dataflow
