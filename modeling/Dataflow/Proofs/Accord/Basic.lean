import Dataflow.Proofs.Visit.Ensures

/-!
# Accords

Two visits may do the same although they are written differently: one may check what the other takes
for granted, or run something else in a situation that never comes about. They do the same as long
as they start from machines for which an invariant holds, and as long as they keep it.

## The notions

* `Accord`: what states, values and ledgers are like, and what is left when a run fails.
* `Accord.Agree`: two visits do the same to every machine for which the accord holds; they keep it, or
  fail as it allows. A visit that agrees with itself keeps the accord.

## What is proved

Visits that are made of agreeing parts agree (`Agree.bind`), and each step of a visit agrees with itself
if what it brings in is as the accord says.
-/

namespace Dataflow

variable {V α β : Type}

/-- What is to hold while a body is visited. -/
structure Accord (V : Type) where
  /-- Of the states at every point of the program. -/
  state : State V → Prop
  /-- Of the values of operations. -/
  value : V → Prop
  /-- Of the ledger. -/
  ledger : Ledger V → Prop
  /-- Of a failure, and of the ledger that is left. -/
  failure : Failure → Ledger V → Prop

namespace Accord

variable (G : Accord V)

/-- The accord holds for a machine: of the state at hand, of what is noted and of the ledger. -/
structure Holds (m : Machine V) : Prop where
  /-- The state at hand. -/
  state : G.state m.state
  /-- The states before operations. -/
  before : ∀ op s, m.notes.before.find? op = some s → G.state s
  /-- The values at returns. -/
  returns : ∀ op v, m.notes.returns.find? op = some v → G.value v
  /-- The ledger. -/
  ledger : G.ledger m.ledger

/-- A visit ends as the accord says. -/
def Ends (P : α → Prop) : Except Failure α × Machine V → Prop
  | (.ok a, m) => G.Holds m ∧ P a
  | (.error e, m) => G.failure e m.ledger

/-- Two visits do the same to all machines for which the accord holds, and end as it says. -/
def Agree (x y : Visit V α) (P : α → Prop) : Prop :=
  ∀ m, G.Holds m → ExceptT.run y m = ExceptT.run x m ∧ G.Ends P (ExceptT.run x m)

/-- A violation is a failure that the accord allows. -/
def Allows (v : Violation) : Prop := ∀ ledger, G.ledger ledger → G.failure (.violated v) ledger

/-- Two computations of a state that may break a rule come to the same. -/
def Steps (c d : Checked (State V)) : Prop :=
  d = c ∧ (∀ s, c = .ok s → G.state s) ∧ ∀ v, c = .error v → G.Allows v

variable {G} {x y : Visit V α} {P Q : α → Prop} {m m' : Machine V}

theorem Agree.ensures (h : G.Agree x y P) (hm : G.Holds m) : Visit.Ensures x m fun a m' => G.Holds m' ∧ P a := by
  intro a m' hx
  have ends := (h m hm).2
  rw [hx] at ends
  exact ends

theorem Agree.mono (h : G.Agree x y P) (hPQ : ∀ a, P a → Q a) : G.Agree x y Q := by
  intro m hm
  obtain ⟨same, ends⟩ := h m hm
  refine ⟨same, ?_⟩
  rcases hx : ExceptT.run x m with ⟨e | a, m'⟩
  · rw [hx] at ends
    exact ends
  · rw [hx] at ends
    exact ⟨ends.1, hPQ a ends.2⟩

theorem Agree.self (h : G.Agree x y P) : G.Agree x x P := fun m hm => ⟨rfl, (h m hm).2⟩

/-- A machine with other notes, of which the accord says the same. -/
theorem Holds.notes (h : G.Holds m) {n : Notes V} (before : n.before = m.notes.before)
    (returns : n.returns = m.notes.returns) : G.Holds { m with notes := n } :=
  ⟨h.state, fun op s hs => h.before op s (before ▸ hs), fun op v hv => h.returns op v (returns ▸ hv), h.ledger⟩

/-! ### Steps -/

theorem agree_pure {a : α} (h : P a) : G.Agree (pure a) (pure a) P := fun _ hm => ⟨rfl, hm, h⟩

theorem agree_throw {e : Failure} (h : ∀ ledger, G.ledger ledger → G.failure e ledger) :
    G.Agree (throw e : Visit V α) (throw e) P := fun m hm => ⟨rfl, h m.ledger hm.ledger⟩

theorem Agree.bind {f g : α → Visit V β} {Q : β → Prop} (h : G.Agree x y P)
    (hf : ∀ a, P a → G.Agree (f a) (g a) Q) : G.Agree (x >>= f) (y >>= g) Q := by
  intro m hm
  obtain ⟨same, ends⟩ := h m hm
  rw [Visit.run_bind, Visit.run_bind, same]
  rcases hx : ExceptT.run x m with ⟨e | a, m'⟩
  · rw [hx] at ends
    exact ⟨rfl, ends⟩
  · rw [hx] at ends
    exact hf a ends.2 m' ends.1

/-- The state at hand is read. -/
theorem agree_state_bind {f g : State V → Visit V β} {Q : β → Prop}
    (h : ∀ s, G.state s → G.Agree (f s) (g s) Q) : G.Agree (Visit.state >>= f) (Visit.state >>= g) Q :=
  fun m hm => h m.state hm.state m hm

/-- What is noted is read. -/
theorem agree_notes_bind {f g : Notes V → Visit V β} {Q : β → Prop}
    (h : ∀ n, G.Agree (f n) (g n) Q) : G.Agree (Visit.notes >>= f) (Visit.notes >>= g) Q :=
  fun m hm => h m.notes m hm

theorem agree_setState {s : State V} (h : G.state s) : G.Agree (Visit.setState s) (Visit.setState s) fun _ => True :=
  fun _ hm => ⟨rfl, ⟨h, hm.before, hm.returns, hm.ledger⟩, trivial⟩

theorem agree_check {c : Checked α} (ok : ∀ a, c = .ok a → P a) (error : ∀ v, c = .error v → G.Allows v) :
    G.Agree (Visit.check c) (Visit.check c) P := by
  cases c with
  | ok a => exact agree_pure (ok a rfl)
  | error v => exact agree_throw (error v rfl)

theorem agree_update {f g : State V → Checked (State V)} (h : ∀ s, G.state s → G.Steps (f s) (g s)) :
    G.Agree (Visit.update f) (Visit.update g) fun _ => True := by
  unfold Visit.update
  refine agree_state_bind fun s hs => ?_
  obtain ⟨same, ok, error⟩ := h s hs
  rw [same]
  exact (agree_check ok error).bind fun t ht => agree_setState ht

/-- Notes change in a way that the accord does not speak of. -/
theorem agree_modifyNotes {f : Notes V → Notes V} (before : ∀ n, (f n).before = n.before)
    (returns : ∀ n, (f n).returns = n.returns) :
    G.Agree (Visit.modifyNotes f) (Visit.modifyNotes f) fun _ => True :=
  fun m hm => ⟨rfl, hm.notes (before m.notes) (returns m.notes), trivial⟩

theorem agree_recordBefore (op : OperationId) :
    G.Agree (Visit.recordBefore op) (Visit.recordBefore op) fun _ => True := by
  intro m hm
  refine ⟨rfl, ⟨hm.state, fun i s hs => ?_, hm.returns, hm.ledger⟩, trivial⟩
  exact FinMap.find?_insert_ind hs hm.state hm.before

theorem agree_recordReturn (op : OperationId) {v : V} (h : G.value v) :
    G.Agree (Visit.recordReturn op v) (Visit.recordReturn op v) fun _ => True := by
  intro m hm
  refine ⟨rfl, ⟨hm.state, hm.before, fun i w hw => ?_, hm.ledger⟩, trivial⟩
  exact FinMap.find?_insert_ind hw h hm.returns

theorem agree_recordValue (op : OperationId) (v : V) :
    G.Agree (Visit.recordValue op v) (Visit.recordValue op v) fun _ => True :=
  agree_modifyNotes (fun _ => rfl) fun _ => rfl

theorem agree_modifyHits (f : HitLog → HitLog) : G.Agree (Visit.modifyHits f) (Visit.modifyHits f) fun _ => True :=
  agree_modifyNotes (fun _ => rfl) fun _ => rfl

theorem agree_entityOf (op : OperationId) : G.Agree (Visit.entityOf op) (Visit.entityOf op) fun _ => True :=
  agree_notes_bind fun _ => agree_pure trivial

theorem agree_recordEntity (op : OperationId) (e : Option Entity) :
    G.Agree (Visit.recordEntity op e) (Visit.recordEntity op e) fun _ => True :=
  agree_modifyNotes (fun _ => rfl) fun _ => rfl

theorem agree_bindCapture (capture : CaptureId) (e : Entity) :
    G.Agree (Visit.bindCapture capture e) (Visit.bindCapture capture e) fun _ => True :=
  agree_modifyNotes (fun _ => rfl) fun _ => rfl

theorem agree_resolve (op : Operation) (owner : Option PointsTo) (indices : List ElementIndex) :
    G.Agree (Visit.resolve op owner indices) (Visit.resolve op owner indices) fun _ => True := by
  unfold Visit.resolve
  refine agree_notes_bind fun n => ?_
  rcases n.resolver.resolve op owner indices with ⟨e, resolver⟩
  dsimp only
  refine Agree.bind (P := fun _ => True) (agree_modifyNotes ?_ ?_) fun _ _ => ?_
  · exact fun _ => rfl
  · exact fun _ => rfl
  · exact (agree_recordEntity op.id e).bind fun _ _ => agree_pure trivial

theorem agree_checkCancelled (h : ∀ ledger, G.ledger ledger → G.failure .cancelled ledger) :
    G.Agree Visit.checkCancelled (Visit.checkCancelled : Visit V Unit) fun _ => True := by
  rintro ⟨s, n, l⟩ hm
  obtain ⟨nodes, summaries, contextual, cancelled⟩ := l
  cases cancelled with
  | true => exact ⟨rfl, h _ hm.ledger⟩
  | false => exact ⟨rfl, hm, trivial⟩

theorem agree_forM {l : List β} {f g : β → Visit V PUnit} (h : ∀ b ∈ l, G.Agree (f b) (g b) fun _ => True) :
    G.Agree (l.forM f) (l.forM g) fun _ => True := by
  induction l with
  | nil => exact agree_pure trivial
  | cons b l ih =>
    exact (h b List.mem_cons_self).bind fun _ _ => ih fun c hc => h c (List.mem_cons_of_mem _ hc)

end Accord

end Dataflow
