import Dataflow.Proofs.Accord.Moments
import Dataflow.Proofs.Congruence.Walk

/-!
# Visits that can be repeated

What a visit does may depend on what is on file. Where that is what would be filed anyway, another visit does the
same with a later ledger, and leaves that as it is.

## The notions

* `Lateness`: which ledgers count as later ones. What was cancelled makes no difference to that.
* `Repeats`: a visit does with any later ledger what led from one machine to another one.
* `Replays`: a visit repeats what another one did.

## What is proved

Visits replay others if their parts do (`Congruence.replaying`). So a run over a body replays another one if the ways to
handle calls do (`Congruence.replaying_solveBody`).
-/

namespace Dataflow

variable {V : Type}

/-! ### Ledgers -/

/-- The ledger, cancelled or not. -/
def Ledger.withCancelled (l : Ledger V) (cancelled : Bool) : Ledger V := { l with cancelled }

theorem Ledger.withCancelled_self {l : Ledger V} {cancelled : Bool} (h : l.cancelled = cancelled) :
    l.withCancelled cancelled = l := by
  subst h
  rfl

/-- Which ledgers are later than others. -/
structure Lateness (V : Type) where
  /-- The second ledger is not earlier than the first one. -/
  Later : Ledger V → Ledger V → Prop
  /-- A ledger itself. -/
  refl : ∀ l, Later l l
  /-- One step after the other. -/
  trans : ∀ {l l' l'' : Ledger V}, Later l l' → Later l' l'' → Later l l''
  /-- A later ledger may be cancelled or not. -/
  withCancelled : ∀ {l l' : Ledger V}, Later l l' → ∀ cancelled, Later l (l'.withCancelled cancelled)

/-- Any ledger may come later. -/
def Lateness.any (V : Type) : Lateness V where
  Later _ _ := True
  refl _ := trivial
  trans _ _ := trivial
  withCancelled _ _ := trivial

/-! ### Runs over bodies -/

namespace Analysis

/-- A run over another body works on the ledger. -/
theorem run_ofRun {α : Type} (r : Run V α) (m : Machine V) :
    ExceptT.run (Visit.ofRun r) m = ((ExceptT.run r m.ledger).1, { m with ledger := (ExceptT.run r m.ledger).2 }) := rfl

theorem run_of_ofRun {α : Type} {r : Run V α} {m m' : Machine V} {a : Except Failure α}
    (h : ExceptT.run (Visit.ofRun r) m = (a, m')) : ExceptT.run r m.ledger = (a, m'.ledger) := by
  rw [run_ofRun] at h
  obtain ⟨rfl, rfl⟩ := Prod.mk.inj h
  rfl

end Analysis

/-! ### Visits -/

variable {I : Ledger V → Prop} {L : Lateness V} {α β : Type} {x y : Visit V α} {m m' m'' : Machine V}

/-- A visit does with any later ledger what led from one machine to another one, and leaves the ledger but for the
cancellation of the work. -/
structure Repeats (L : Lateness V) (y : Visit V α) (m : Machine V) (a : α) (m' : Machine V) : Prop where
  /-- The ledger became later. -/
  later : L.Later m.ledger m'.ledger
  /-- The visit with a later ledger. -/
  again : ∀ l, L.Later m'.ledger l → l.cancelled = m.ledger.cancelled →
    ExceptT.run y { m with ledger := l } = (.ok a, { m' with ledger := l.withCancelled m'.ledger.cancelled })

theorem Repeats.bind {g : α → Visit V β} {a : α} {b : β} (hy : Repeats L y m a m') (hg : Repeats L (g a) m' b m'') :
    Repeats L (y >>= g) m b m'' where
  later := L.trans hy.later hg.later
  again l hl hc := by
    rw [Visit.run_bind, hy.again l (L.trans hg.later hl) hc]
    exact hg.again (l.withCancelled m'.ledger.cancelled) (L.withCancelled hl _) rfl

/-- The first visit keeps an invariant, and if it succeeds, then the second one repeats what it did. -/
structure Replays (I : Ledger V → Prop) (L : Lateness V) (x y : Visit V α) (m : Machine V) : Prop where
  /-- The invariant. -/
  keeps : I (ExceptT.run x m).2.ledger
  /-- The second visit. -/
  repeats : ∀ a m', ExceptT.run x m = (.ok a, m') → Repeats L y m a m'

/-- Visits that fail have nothing to be repeated. -/
theorem Replays.of_error {e : Failure} (h : ExceptT.run x m = (.error e, m')) (keeps : I m'.ledger) : Replays I L x y m :=
  ⟨by rwa [h], fun a m' ha => by rw [h] at ha; cases ha⟩

/-- Visits that succeed are repeated in one way. -/
theorem Replays.of_ok {a : α} (h : ExceptT.run x m = (.ok a, m')) (keeps : I m'.ledger) (repeats : Repeats L y m a m') :
    Replays I L x y m := by
  refine ⟨by rwa [h], fun b m'' hb => ?_⟩
  rw [h] at hb
  cases hb
  exact repeats

namespace Congruence

variable (I L) in
/-- Visits of which the second one replays the first one. -/
def replaying : Congruence V where
  Rel x y := ∀ m, I m.ledger → Replays I L x y m
  apart := by
    intro α x hx m hm
    refine ⟨by rwa [hx.ledger_eq], fun a m' h => ?_⟩
    have ledger : m'.ledger = m.ledger := by
      have := hx.ledger_eq (m := m)
      rwa [h] at this
    refine ⟨ledger ▸ L.refl _, fun l _ hc => ?_⟩
    rw [hx m l, h, ledger, ← hc]
    rfl
  bind := by
    intro α β x y f g hx hf m hm
    obtain ⟨keeps, repeats⟩ := hx m hm
    rcases hr : ExceptT.run x m with ⟨e | a, m'⟩
    · rw [hr] at keeps
      exact .of_error (by rw [Visit.run_bind, hr]) keeps
    · have run : ExceptT.run (x >>= f) m = ExceptT.run (f a) m' := by rw [Visit.run_bind, hr]
      rw [hr] at keeps
      obtain ⟨keeps', repeats'⟩ := hf a m' keeps
      exact ⟨run ▸ keeps', fun b m'' h => (repeats a m' hr).bind (repeats' b m'' (run ▸ h))⟩
  checkCancelled := by
    intro m hm
    refine ⟨by rwa [Visit.run_checkCancelled_eq], fun _ m' h => ?_⟩
    rw [Visit.run_checkCancelled_eq] at h
    obtain ⟨ok, rfl⟩ := Prod.mk.inj h
    refine ⟨L.refl _, fun l _ hc => ?_⟩
    rw [Visit.run_checkCancelled_eq, Ledger.withCancelled_self hc, hc, ok]

/-- After a check for cancellation, one visit replays another one if it does while the work is running. -/
theorem replaying_of_running (h : ∀ m, I m.ledger → m.ledger.cancelled = false → Replays I L x y m) :
    (replaying I L).Rel (Visit.checkCancelled >>= fun _ => x) (Visit.checkCancelled >>= fun _ => y) := by
  intro m hm
  cases running : m.ledger.cancelled with
  | true => exact .of_error (Visit.run_of_cancelled running) hm
  | false =>
    obtain ⟨keeps, repeats⟩ := h m hm running
    rw [← Visit.run_of_running running] at keeps
    refine ⟨keeps, fun a m' ha => ?_⟩
    rw [Visit.run_of_running running] at ha
    obtain ⟨later, again⟩ := repeats a m' ha
    refine ⟨later, fun l hl hc => ?_⟩
    rw [Visit.run_of_running (hc.trans running)]
    exact again l hl hc

/-- To ask the filter replays itself if the invariant may be cancelled. -/
theorem replaying_accepts (cancel : ∀ l, I l → I (l.withCancelled true)) (ctx : Context V) (method : Symbol) :
    (replaying I L).Rel (Analysis.accepts ctx method) (Analysis.accepts ctx method) :=
  (replaying I L).accepts method fun _ hm =>
    .of_ok rfl (cancel _ hm) ⟨L.withCancelled (L.refl _) true, fun _ _ _ => rfl⟩

/-- A run over a body replays another one if the ways to handle calls do. -/
theorem replaying_solveBody [DecidableEq V] {A : Analysis V} (H : A.Apart) {ctx : Context V} {usual usual' : Call V → Visit V V}
    (usuals : ∀ call, ctx.graph.Calls call → (replaying I L).Rel (usual call) (usual' call)) :
    (replaying I L).Rel (Visit.ofRun (A.solveBody ctx usual)) (Visit.ofRun (A.solveBody ctx usual')) := by
  intro m hm
  obtain ⟨keeps, repeats⟩ := (replaying I L).settleBody H usuals (Analysis.startOf ctx m.ledger) hm
  rcases hr : ExceptT.run (A.settleBody ctx usual) (Analysis.startOf ctx m.ledger) with ⟨e | p, m₁⟩
  · have run : ExceptT.run (Visit.ofRun (A.solveBody ctx usual)) m = (.error e, { m with ledger := m₁.ledger }) := by
      rw [Analysis.run_ofRun, Analysis.run_solveBody, hr]
    rw [hr] at keeps
    exact .of_error run keeps
  · have run : ExceptT.run (Visit.ofRun (A.solveBody ctx usual)) m =
        (.ok (A.solutionOf ctx p m₁.notes), { m with ledger := m₁.ledger }) := by
      rw [Analysis.run_ofRun, Analysis.run_solveBody, hr]
    rw [hr] at keeps
    obtain ⟨later, again⟩ := repeats p m₁ hr
    refine .of_ok run keeps ⟨later, fun l hl hc => ?_⟩
    have body : ExceptT.run (A.settleBody ctx usual') (Analysis.startOf ctx l) = _ := again l hl hc
    rw [Analysis.run_ofRun, Analysis.run_solveBody, body]

end Congruence

end Dataflow
