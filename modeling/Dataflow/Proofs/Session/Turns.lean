import Dataflow.Proofs.Session.Keys
import Dataflow.Session.Sharing

/-!
# Steps of clients that share a cache

A client has to do with one slot, that of its key (`Traffic.Placed`).

## What is proved

A step changes how far one client has come and what one slot holds, and nothing else
(`Traffic.took`); what can happen to the two is listed in `Turn`. A client that has no answer yet
comes on its own to the result if there is one, and computes if nobody does
(`Traffic.exists_answered`, `Traffic.exists_computing`).
-/

namespace Dataflow

namespace SharedCache

/-! ### Slots -/

variable {δ α : Type} {c : SharedCache δ α} {i j : Nat} {s : Slot α}

@[simp] theorem computations_put : (c.put i s).computations = c.computations := rfl

@[simp] theorem computations_count : c.count.computations = c.computations + 1 := rfl

@[simp] theorem content?_count : c.count.content? i = c.content? i := rfl

theorem content?_put : (c.put i s).content? j = if i = j then (c.content? j).map fun _ => s else c.content? j := by
  simp only [content?, put, List.getElem?_modify]
  split <;> simp [Function.comp_def]

variable [BEq δ] {key a b : CacheKey δ}

theorem indexOf?_eq : c.indexOf? key = (c.slots.map (·.1)).findIdx? (· == key) := by
  simp [indexOf?, List.findIdx?_map, Function.comp_def]

@[simp] theorem indexOf?_count : c.count.indexOf? key = c.indexOf? key := rfl

@[simp] theorem slot_count : c.count.slot key = c.slot key := rfl

@[simp] theorem indexOf?_put : (c.put i s).indexOf? key = c.indexOf? key := by
  have keys : (c.put i s).slots.map (·.1) = c.slots.map (·.1) := by
    refine List.ext_getElem? fun k => ?_
    simp only [put, List.getElem?_map, List.getElem?_modify]
    split <;> simp [Function.comp_def]
  rw [indexOf?_eq, indexOf?_eq, keys]

/-- The index of a slot is one of a slot that exists. -/
theorem exists_content? (h : c.indexOf? key = some i) : ∃ s, c.content? i = some s := by
  obtain ⟨hlt, -⟩ := List.findIdx?_eq_some_iff_getElem.1 h
  exact ⟨_, by rw [content?, List.getElem?_eq_getElem hlt]; rfl⟩

theorem content?_eq (h : c.indexOf? key = some i) : c.content? i = some (c.slot key) := by
  obtain ⟨s, hs⟩ := exists_content? h
  simp [slot, h, hs]

theorem slot_put_self (h : c.indexOf? key = some i) : (c.put i s).slot key = s := by
  obtain ⟨s', hs⟩ := exists_content? h
  simp [slot, h, content?_put, hs]

/-- Where a result is a slot was made. -/
theorem exists_indexOf? {r : Stored α} (h : c.slot key = .full r) : ∃ i, c.indexOf? key = some i := by
  cases made : c.indexOf? key with
  | some i => exact ⟨i, rfl⟩
  | none => simp [slot, made] at h

/-! Looking up a slot may make one, which is empty, and changes nothing else. -/

theorem indexOf?_slotFor (h : c.indexOf? a = some i) : (c.slotFor key).2.indexOf? a = some i := by
  unfold slotFor
  split
  · exact h
  · simp only [indexOf?] at h ⊢
    rw [List.findIdx?_append, h]
    rfl

@[simp] theorem computations_slotFor : (c.slotFor key).2.computations = c.computations := by
  unfold slotFor
  split <;> rfl

@[simp] theorem slot_slotFor : (c.slotFor key).2.slot a = c.slot a := by
  unfold slotFor
  split
  · rfl
  · rename_i h
    -- a key that had no slot before has the new one, if any
    cases ha : c.indexOf? a with
    | some i =>
      obtain ⟨hlt, -⟩ := List.findIdx?_eq_some_iff_getElem.1 ha
      have ha' := ha
      rw [indexOf?] at ha'
      simp [slot, indexOf?, content?, List.findIdx?_append, List.getElem?_append_left, ha', hlt]
    | none =>
      have ha' := ha
      rw [indexOf?] at ha'
      simp only [slot, indexOf?, content?, List.findIdx?_append, ha', List.findIdx?_cons]
      cases (key == a) <;> simp

theorem slotFor_of_indexOf? (h : c.indexOf? key = some i) : c.slotFor key = (i, c) := by
  simp [slotFor, h]

theorem find?_eq_some {r : Stored α} : c.find? key = some r ↔ c.slot key = .full r := by
  unfold find?
  cases c.slot key <;> simp

theorem find?_eq_none : c.find? key = none ↔ ∀ r, c.slot key ≠ .full r := by
  unfold find?
  cases c.slot key <;> simp

variable [EquivBEq δ]

/-- Who looks up a slot has it. -/
theorem indexOf?_slotFor_self : (c.slotFor key).2.indexOf? key = some (c.slotFor key).1 := by
  unfold slotFor
  split
  · assumption
  · rename_i h
    rw [indexOf?] at h
    simp [indexOf?, List.findIdx?_append, h]

theorem indexOf?_congr (h : (a == b) = true) : c.indexOf? a = c.indexOf? b := by
  unfold indexOf?
  exact congrArg (fun p => c.slots.findIdx? p) (funext fun e => BEq.congr_right h)

theorem slot_congr (h : (a == b) = true) : c.slot a = c.slot b := by
  unfold slot
  rw [indexOf?_congr h]

/-- A slot is that of one key, up to being taken for equal. -/
theorem beq_of_indexOf? (ha : c.indexOf? a = some i) (hb : c.indexOf? b = some i) : (a == b) = true := by
  obtain ⟨_, ha, -⟩ := List.findIdx?_eq_some_iff_getElem.1 ha
  obtain ⟨_, hb, -⟩ := List.findIdx?_eq_some_iff_getElem.1 hb
  exact BEq.trans (BEq.symm ha) hb

/-- What is put in one slot is not in another. -/
theorem slot_put_of_ne (h : c.indexOf? a = some i) (hne : (a == b) = false) : (c.put i s).slot b = c.slot b := by
  cases hb : c.indexOf? b with
  | none => simp [slot, hb]
  | some j =>
    have hij : i ≠ j := by
      rintro rfl
      rw [beq_of_indexOf? h hb] at hne
      cases hne
    simp [slot, hb, content?_put, hij]

end SharedCache

/-! ### What a step does -/

namespace Phase

variable {α ε : Type}

/-- The slot of a client that has one and is not done. -/
def slot? : Phase α ε → Option Nat
  | waiting k | admitted k | computing k _ => some k
  | asking | answered _ => none

/-- Whether a client has no answer yet and waits for its turn or a result, or is about to. -/
def pending : Phase α ε → Bool
  | asking | waiting _ => true
  | admitted _ | computing .. | answered _ => false

/-- Whether a client is the one that computes for its slot. -/
def atWork : Phase α ε → Bool
  | admitted _ | computing .. => true
  | asking | waiting _ | answered _ => false

end Phase

/-- What a step of a client does to its phase and its slot; `n` is the number of computations before. -/
inductive Turn {δ α ε : Type} (d : Demand δ α) (answer : Stored α → Except ε (Stored α)) (n : Nat) :
    ClientStep α ε → Phase α ε → Slot α → Phase α ε → Slot α → Prop where
  | lookUp (i k : Nat) (s : Slot α) : Turn d answer n (.lookUp i) .asking s (.waiting k) s
  | take (i k : Nat) (r : Stored α) : Turn d answer n (.take i) (.waiting k) (.full r) (.answered (answer r)) (.full r)
  | enter (i k : Nat) : Turn d answer n (.enter i) (.waiting k) .empty (.admitted k) .busy
  | compute (i k : Nat) (s : Slot α) : Turn d answer n (.compute i) (.admitted k) s (.computing k (n + 1)) s
  | succeed (i k m : Nat) (v : α) (s : Slot α) : d.accepts v = true →
      Turn d answer n (.succeed i v) (.computing k m) s (.answered (.ok ⟨m, v⟩)) (.full ⟨m, v⟩)
  | fail (i k m : Nat) (e : ε) (s : Slot α) :
      Turn d answer n (.fail i e) (.computing k m) s (.answered (.error e)) .empty

namespace Turn

variable {δ α ε : Type} {d : Demand δ α} {answer : Stored α → Except ε (Stored α)} {n : Nat} {s : ClientStep α ε}
  {p p' : Phase α ε} {o o' : Slot α}

/-- A slot that is not empty is changed only by the client that computes. -/
theorem keeps (h : Turn d answer n s p o p' o') (idle : p.atWork = false) (ho : o ≠ .empty) : o' = o := by
  cases h with
  | lookUp | take => rfl
  | enter => exact absurd rfl ho
  | compute | succeed | fail => cases idle

/-- Who has to do with a computation is the one that computes, or begins where nobody does. -/
theorem of_computes (h : Turn d answer n s p o p' o') (hs : s.computes) : p.atWork ∨ o = .empty := by
  cases h with
  | lookUp | take => cases hs
  | enter => exact .inr rfl
  | compute | succeed | fail => exact .inl rfl

/-- Who computes did so before, or begins where nobody does, and is at it. -/
theorem of_atWork (h : Turn d answer n s p o p' o') (hp : p'.atWork) :
    p.atWork = true ∧ o' = o ∨ o = .empty ∧ o' = .busy := by
  cases h with
  | lookUp | take | succeed | fail => cases hp
  | enter => exact .inr ⟨rfl, rfl⟩
  | compute => exact .inl ⟨rfl, rfl⟩

/-- Where somebody is at it, it is the client or somebody who was at it before. -/
theorem of_busy (h : Turn d answer n s p o p' .busy) : p'.atWork = true ∨ o = .busy ∧ p.atWork = false := by
  cases h with
  | lookUp => exact .inr ⟨rfl, rfl⟩
  | enter | compute => exact .inl rfl

/-- A result that is there was there before, or the client has just come to it. -/
theorem of_full {r : Stored α} (h : Turn d answer n s p o p' (.full r)) :
    o = .full r ∨ s = .succeed s.client r.value ∧ p' = .answered (.ok r) := by
  cases h with
  | lookUp | take | compute => exact .inl rfl
  | succeed => exact .inr ⟨rfl, rfl⟩

/-- An answer is made of the result that is there, or is what the computation of the client came to. -/
theorem of_answered {a : Except ε (Stored α)} (h : Turn d answer n s p o (.answered a) o') :
    (∃ r, o' = .full r ∧ a = answer r) ∨
      (∃ r, o' = .full r ∧ a = .ok r ∧ d.accepts r.value = true) ∨ ∃ e, s = .fail s.client e ∧ a = .error e := by
  cases h with
  | take _ _ r => exact .inl ⟨r, rfl, rfl⟩
  | succeed _ _ m v _ accepts => exact .inr (.inl ⟨⟨m, v⟩, rfl, rfl, accepts⟩)
  | fail _ _ _ e => exact .inr (.inr ⟨e, rfl, rfl⟩)

/-- Who comes to a result answers it. -/
theorem of_succeed {i : Nat} {v : α} (h : Turn d answer n (.succeed i v) p o p' o') : ∃ m, p' = .answered (.ok ⟨m, v⟩) := by
  cases h
  exact ⟨_, rfl⟩

/-- Who fails to compute answers the failure and leaves the slot empty. -/
theorem of_fail {i : Nat} {e : ε} (h : Turn d answer n (.fail i e) p o p' o') : p' = .answered (.error e) ∧ o' = .empty := by
  cases h
  exact ⟨rfl, rfl⟩

/-- Who has an answer is done. -/
theorem not_answered {a : Except ε (Stored α)} (h : Turn d answer n s (.answered a) o p' o') : False := by
  cases h

end Turn

namespace Traffic

variable {δ α ε : Type} {demands : Nat → Demand δ α} {mistyped : AnalysisKind → ε}
  {t t' : Traffic δ α ε} {s : ClientStep α ε} {i j : Nat} {p : Phase α ε} {c : SharedCache δ α}

@[simp] theorem phase_move_self : (t.move i p c).phase i = p := if_pos rfl

theorem phase_move_of_ne (h : j ≠ i) : (t.move i p c).phase j = t.phase j := if_neg h

@[simp] theorem cache_move : (t.move i p c).cache = c := rfl

variable [BEq δ]

/-- Who has a slot has the slot of its key. -/
def Placed (demands : Nat → Demand δ α) (t : Traffic δ α ε) : Prop :=
  ∀ i k, (t.phase i).slot? = some k → t.cache.indexOf? (demands i).key = some k

variable (demands mistyped) in
/-- A step changes how far its client has come and what the slot of its client holds, and nothing else. -/
structure Took (t : Traffic δ α ε) (s : ClientStep α ε) (t' : Traffic δ α ε) : Prop where
  /-- What the client does. -/
  turn : Turn (demands s.client) (answerOf demands mistyped s.client) t.cache.computations s
    (t.phase s.client) (t.cache.slot (demands s.client).key) (t'.phase s.client) (t'.cache.slot (demands s.client).key)
  /-- Other clients come no further. -/
  others : ∀ j, j ≠ s.client → t'.phase j = t.phase j
  /-- Other slots hold what they held. -/
  elsewhere : ∀ key, ((demands s.client).key == key) = false → t'.cache.slot key = t.cache.slot key
  /-- The computations that are started are counted. -/
  counted : t'.cache.computations = t.cache.computations + s.isStart.toNat
  /-- Slots stay where they are. -/
  placed : Placed demands t'

theorem start_placed : Placed demands (start : Traffic δ α ε) := fun _ _ h => by cases h

/-- A client that comes to another phase has the slot that it had, or one that it has looked up. -/
theorem Placed.move (placed : Placed demands t) (stay : ∀ key k, t.cache.indexOf? key = some k → c.indexOf? key = some k)
    (own : ∀ k, p.slot? = some k → c.indexOf? (demands i).key = some k) : Placed demands (t.move i p c) := by
  intro j k hk
  by_cases hj : j = i
  · subst hj
    rw [phase_move_self] at hk
    exact own k hk
  · rw [phase_move_of_ne hj] at hk
    exact stay _ _ (placed j k hk)

/-- A step in which the slot of the client is changed. -/
theorem Took.put [EquivBEq δ] (placed : Placed demands t) {k : Nat} {o : Slot α}
    (has : (t.phase s.client).slot? = some k) (keeps : ∀ k', p.slot? = some k' → k' = k) (notStart : s.isStart = false)
    (turn : Turn (demands s.client) (answerOf demands mistyped s.client) t.cache.computations s
      (t.phase s.client) (t.cache.slot (demands s.client).key) p o) :
    Took demands mistyped t s (t.move s.client p (t.cache.put k o)) := by
  have own := placed _ _ has
  refine ⟨?_, fun j hj => phase_move_of_ne hj, fun key hkey => SharedCache.slot_put_of_ne own hkey, ?_,
    placed.move (fun key k' hk' => ?_) fun k' hk' => ?_⟩
  · rwa [phase_move_self, cache_move, SharedCache.slot_put_self own]
  · simp [notStart]
  · rwa [SharedCache.indexOf?_put]
  · rw [SharedCache.indexOf?_put, keeps k' hk']
    exact own

/-- What a step does that is possible. -/
theorem took [EquivBEq δ] (placed : Placed demands t) (h : t.step demands mistyped s = some t') :
    Took demands mistyped t s t' := by
  -- the slot that a client has holds what the slot of its key holds
  have content {i k : Nat} {p : Phase α ε} (hp : t.phase i = p) (hk : p.slot? = some k) :
      t.cache.content? k = some (t.cache.slot (demands i).key) :=
    SharedCache.content?_eq (placed i k (by rw [hp]; exact hk))
  cases s with
  | lookUp i =>
    simp only [step] at h
    split at h
    · rename_i hp
      obtain rfl := Option.some.inj h
      refine ⟨?_, fun j hj => phase_move_of_ne hj, fun key _ => SharedCache.slot_slotFor,
        SharedCache.computations_slotFor, placed.move (fun _ _ => SharedCache.indexOf?_slotFor) fun k hk => ?_⟩
      · simp only [ClientStep.client, phase_move_self, cache_move, SharedCache.slot_slotFor, hp]
        exact .lookUp ..
      · obtain rfl := Option.some.inj hk
        exact SharedCache.indexOf?_slotFor_self
    · cases h
  | take i =>
    simp only [step] at h
    split at h
    · rename_i k hp
      split at h
      · rename_i r hr
        obtain rfl := Option.some.inj h
        have hslot : t.cache.slot (demands i).key = .full r := Option.some.inj ((content hp rfl).symm.trans hr)
        refine ⟨?_, fun j hj => phase_move_of_ne hj, fun key _ => rfl, rfl, placed.move (fun _ _ h => h) fun k hk => ?_⟩
        · simp only [ClientStep.client, phase_move_self, cache_move, hp, hslot]
          exact .take ..
        · cases hk
      · cases h
    · cases h
  | enter i =>
    simp only [step] at h
    split at h
    · rename_i k hp
      split at h
      · rename_i hr
        obtain rfl := Option.some.inj h
        have hslot : t.cache.slot (demands i).key = .empty := Option.some.inj ((content hp rfl).symm.trans hr)
        refine .put placed (by rw [ClientStep.client, hp]; rfl) (fun k' hk' => (Option.some.inj hk').symm) rfl ?_
        rw [ClientStep.client, hp, hslot]
        exact .enter ..
      · cases h
    · cases h
  | compute i =>
    simp only [step] at h
    split at h
    · rename_i k hp
      obtain rfl := Option.some.inj h
      refine ⟨?_, fun j hj => phase_move_of_ne hj, fun key _ => rfl, rfl, placed.move (fun _ _ h => h) fun k' hk' => ?_⟩
      · simp only [ClientStep.client, phase_move_self, cache_move, SharedCache.slot_count, hp]
        exact .compute ..
      · obtain rfl := Option.some.inj hk'
        exact placed i k (by rw [hp]; rfl)
    · cases h
  | succeed i v =>
    simp only [step] at h
    split at h
    · rename_i k m hp
      split at h
      · rename_i accepts
        obtain rfl := Option.some.inj h
        refine .put placed (by rw [ClientStep.client, hp]; rfl) (fun k' hk' => by cases hk') rfl ?_
        rw [ClientStep.client, hp]
        exact .succeed _ _ _ _ _ accepts
      · cases h
    · cases h
  | fail i e =>
    simp only [step] at h
    split at h
    · rename_i k m hp
      obtain rfl := Option.some.inj h
      refine .put placed (by rw [ClientStep.client, hp]; rfl) (fun k' hk' => by cases hk') rfl ?_
      rw [ClientStep.client, hp]
      exact .fail ..
    · cases h

/-! ### What a client can do on its own -/

variable (demands mistyped) in
/-- A client comes from one state to another without the others. -/
def Reaches (i : Nat) (t t' : Traffic δ α ε) : Prop :=
  ∃ steps : List (ClientStep α ε), (∀ s ∈ steps, s.client = i) ∧ t.run demands mistyped steps = some t'

theorem Reaches.refl : Reaches demands mistyped i t t := ⟨[], by simp, rfl⟩

theorem Reaches.head {t₁ : Traffic δ α ε} (own : s.client = i) (h : t.step demands mistyped s = some t₁)
    (rest : Reaches demands mistyped i t₁ t') : Reaches demands mistyped i t t' := by
  obtain ⟨steps, own', hrun⟩ := rest
  refine ⟨s :: steps, List.forall_mem_cons.2 ⟨own, own'⟩, ?_⟩
  rw [run] at hrun
  rw [run, List.foldlM_cons, h]
  exact hrun

theorem Reaches.trans {t₁ : Traffic δ α ε} (h : Reaches demands mistyped i t t₁) (h' : Reaches demands mistyped i t₁ t') :
    Reaches demands mistyped i t t' := by
  obtain ⟨steps, own, hrun⟩ := h
  obtain ⟨steps', own', hrun'⟩ := h'
  refine ⟨steps ++ steps', fun s hs => (List.mem_append.1 hs).elim (own s) (own' s), ?_⟩
  rw [run] at hrun hrun'
  rw [run, List.foldlM_append, hrun]
  exact hrun'

variable (demands mistyped) in
theorem step_lookUp (asks : t.phase i = .asking) : t.step demands mistyped (.lookUp i) =
    some (t.move i (.waiting (t.cache.slotFor (demands i).key).1) (t.cache.slotFor (demands i).key).2) := by
  simp only [step, asks]

section
variable [EquivBEq δ]

variable (demands mistyped) in
/-- A client without an answer has come to wait at its slot, which changes nothing that a slot holds. -/
structure Queued (i : Nat) (t t₁ : Traffic δ α ε) (k : Nat) : Prop where
  reaches : Reaches demands mistyped i t t₁
  placed : Placed demands t₁
  waits : t₁.phase i = .waiting k
  others : ∀ j, j ≠ i → t₁.phase j = t.phase j
  slot : ∀ key, t₁.cache.slot key = t.cache.slot key
  computations : t₁.cache.computations = t.cache.computations
  /-- The slot is not made if it is there. -/
  made : ∀ k', t.cache.indexOf? (demands i).key = some k' → t₁.cache = t.cache

variable (mistyped) in
theorem exists_queued (placed : Placed demands t) (pending : (t.phase i).pending) :
    ∃ t₁ k, Queued demands mistyped i t t₁ k := by
  cases hp : t.phase i with
  | asking =>
    have h := step_lookUp demands mistyped hp
    exact ⟨_, _, .head rfl h .refl, (took placed h).placed, phase_move_self, fun j hj => phase_move_of_ne hj,
      fun key => SharedCache.slot_slotFor, SharedCache.computations_slotFor,
      fun k' hk' => by rw [cache_move, SharedCache.slotFor_of_indexOf? hk']⟩
  | waiting k => exact ⟨t, k, .refl, placed, hp, fun _ _ => rfl, fun _ => rfl, rfl, fun _ _ => rfl⟩
  | _ => simp [hp, Phase.pending] at pending

variable (mistyped) in
/-- A client without an answer comes to an answer where there is a result. -/
theorem exists_answered (placed : Placed demands t) (pending : (t.phase i).pending) {r : Stored α}
    (full : t.cache.slot (demands i).key = .full r) : ∃ t', Reaches demands mistyped i t t' ∧
      t'.phase i = .answered (answerOf demands mistyped i r) ∧ t'.cache = t.cache := by
  obtain ⟨t₁, k, queued⟩ := exists_queued mistyped placed pending
  have content := SharedCache.content?_eq (queued.placed i k (by rw [queued.waits]; rfl))
  rw [queued.slot, full] at content
  have step : t₁.step demands mistyped (.take i) =
      some (t₁.move i (.answered (answerOf demands mistyped i r)) t₁.cache) := by
    simp only [step, queued.waits, content]
  obtain ⟨k', made⟩ := SharedCache.exists_indexOf? full
  exact ⟨_, queued.reaches.trans (.head rfl step .refl), phase_move_self, queued.made k' made⟩

variable (mistyped) in
/-- A client without an answer comes to compute where nobody does. -/
theorem exists_computing (placed : Placed demands t) (pending : (t.phase i).pending)
    (empty : t.cache.slot (demands i).key = .empty) : ∃ t' k, Reaches demands mistyped i t t' ∧ Placed demands t' ∧
      t'.phase i = .computing k (t.cache.computations + 1) ∧ t'.cache.computations = t.cache.computations + 1 ∧
      ∀ key, ((demands i).key == key) = false → t'.cache.slot key = t.cache.slot key := by
  obtain ⟨t₁, k, queued⟩ := exists_queued mistyped placed pending
  have content := SharedCache.content?_eq (queued.placed i k (by rw [queued.waits]; rfl))
  rw [queued.slot, empty] at content
  have enter : t₁.step demands mistyped (.enter i) = some (t₁.move i (.admitted k) (t₁.cache.put k .busy)) := by
    simp only [step, queued.waits, content]
  have tookEnter := took queued.placed enter
  have compute : (t₁.move i (.admitted k) (t₁.cache.put k .busy)).step demands mistyped (.compute i) =
      some ((t₁.move i (.admitted k) (t₁.cache.put k .busy)).move i (.computing k (t₁.cache.computations + 1))
        (t₁.cache.put k .busy).count) := by
    simp [step]
  have tookCompute := took tookEnter.placed compute
  refine ⟨_, k, queued.reaches.trans (.head rfl enter (.head rfl compute .refl)), tookCompute.placed, ?_, ?_, fun key hkey => ?_⟩
  · rw [phase_move_self, queued.computations]
  · rw [tookCompute.counted, tookEnter.counted, queued.computations]
    rfl
  · rw [tookCompute.elsewhere key hkey, tookEnter.elsewhere key hkey, queued.slot]

end

end Traffic

end Dataflow
