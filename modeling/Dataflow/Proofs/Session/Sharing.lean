import Dataflow.Proofs.Session.Turns

/-!
# One computation for each key

However the steps of the clients of a cache are ordered, there is one successful computation for a
key at most, and all its clients get what it came to.

## Overview

`Traffic.Sound` says what is the case after any steps. Each of its parts is preserved by a step,
and so by a run (`Traffic.run_sound`). What clients can rely on follows from it
(`Traffic.orderly`). A client that is alone with the cache is served as a request is
(`Traffic.exists_of_request`).
-/

namespace Dataflow

namespace Traffic

variable {δ α ε : Type} [BEq δ] {demands : Nat → Demand δ α} {mistyped : AnalysisKind → ε}
  {t t' : Traffic δ α ε} {s : ClientStep α ε} {i j : Nat}

/-! ### What holds after any steps -/

variable (demands mistyped) in
/-- What is the case after the steps. -/
structure Sound (past : List (ClientStep α ε)) (t : Traffic δ α ε) : Prop where
  /-- Who has a slot has the slot of its key. -/
  placed : Placed demands t
  /-- The slot of one who computes is marked. -/
  busy : ∀ i, (t.phase i).atWork → t.cache.slot (demands i).key = .busy
  /-- No two clients compute for one key. -/
  alone : ∀ i j, (t.phase i).atWork → (t.phase j).atWork → ((demands i).key == (demands j).key) = true → i = j
  /-- Where a slot is marked somebody computes. -/
  manned : ∀ key, t.cache.slot key = .busy → ∃ i, (t.phase i).atWork ∧ ((demands i).key == key) = true
  /-- A result is what a client answers who came to it. -/
  filled : ∀ key r, t.cache.slot key = .full r →
    ∃ i, .succeed i r.value ∈ past ∧ ((demands i).key == key) = true ∧ t.phase i = .answered (.ok r)
  /-- A good answer is the result for the key, and of the type that the client asks for. -/
  agreed : ∀ i r, t.phase i = .answered (.ok r) → t.cache.slot (demands i).key = .full r ∧ (demands i).accepts r.value = true
  /-- Another answer is the failure of the client's own computation, or there is a result of another type. -/
  refused : ∀ i e, t.phase i = .answered (.error e) → .fail i e ∈ past ∨
    ∃ r, t.cache.slot (demands i).key = .full r ∧ (demands i).accepts r.value = false ∧ e = mistyped (demands i).key.kind
  /-- Who came to a result answers it. -/
  succeeded : ∀ i v, .succeed i v ∈ past → ∃ m, t.phase i = .answered (.ok ⟨m, v⟩)
  /-- The computations that were started are counted. -/
  counted : t.cache.computations = past.countP (·.isStart)
  /-- After a success nobody has to do with a computation for the key. -/
  once : past.Pairwise fun a b => a.isSuccess → b.computes → ((demands a.client).key == (demands b.client).key) = false

theorem start_sound : Sound demands mistyped [] (start : Traffic δ α ε) where
  placed := start_placed
  busy _ h := by cases h
  alone _ _ h := by cases h
  manned _ h := by cases h
  filled _ _ h := by cases h
  agreed _ _ h := by cases h
  refused _ _ h := by cases h
  succeeded _ _ h := by cases h
  counted := rfl
  once := .nil

theorem Took.done (h : Took demands mistyped t s t') {a : Except ε (Stored α)} (ha : t.phase i = .answered a) :
    t'.phase i = .answered a := by
  by_cases hi : i = s.client
  · have turn := h.turn
    rw [← hi, ha] at turn
    exact turn.not_answered.elim
  · rw [h.others i hi, ha]

namespace Sound

variable {past : List (ClientStep α ε)} {key : CacheKey δ} {r : Stored α}

/-- Who computes has no result yet. -/
theorem idle (sound : Sound demands mistyped past t) (h : t.cache.slot (demands i).key = .full r) :
    (t.phase i).atWork = false := by
  rw [Bool.eq_false_iff]
  intro work
  rw [sound.busy i work] at h
  cases h

/-! Each of the following holds before and after a step. -/

variable (sound : Sound demands mistyped past t) (h : Took demands mistyped t s t')
include sound h

theorem step_succeeded {v : α} (mem : .succeed i v ∈ past ++ [s]) : ∃ m, t'.phase i = .answered (.ok ⟨m, v⟩) := by
  rcases List.mem_append.1 mem with mem | mem
  · obtain ⟨m, answer⟩ := sound.succeeded i v mem
    exact ⟨m, h.done answer⟩
  · obtain rfl := List.mem_singleton.1 mem
    exact h.turn.of_succeed

theorem step_counted : t'.cache.computations = (past ++ [s]).countP (·.isStart) := by
  rw [h.counted, sound.counted, List.countP_append]
  cases hs : s.isStart <;> simp [hs]

variable [EquivBEq δ]

/-- A result that is there stays there. -/
theorem stays (hr : t.cache.slot key = .full r) : t'.cache.slot key = .full r := by
  cases hkey : (demands s.client).key == key with
  | false => rwa [h.elsewhere key hkey]
  | true =>
    have turn := h.turn
    rw [SharedCache.slot_congr hkey, SharedCache.slot_congr hkey, hr] at turn
    exact turn.keeps (sound.idle ((SharedCache.slot_congr hkey).trans hr)) (by simp)

theorem step_busy (work : (t'.phase i).atWork) : t'.cache.slot (demands i).key = .busy := by
  by_cases hi : i = s.client
  · subst hi
    obtain ⟨work', same⟩ | ⟨-, busy⟩ := h.turn.of_atWork work
    · rw [same, sound.busy _ work']
    · exact busy
  · rw [h.others i hi] at work
    have busy := sound.busy i work
    cases hkey : (demands s.client).key == (demands i).key with
    | false => rw [h.elsewhere _ hkey, busy]
    | true =>
      -- it is the client that computes, so that of the step does not
      have idle : (t.phase s.client).atWork = false :=
        Bool.eq_false_iff.2 fun work' => hi (sound.alone _ _ work' work hkey).symm
      have turn := h.turn
      rw [SharedCache.slot_congr hkey, SharedCache.slot_congr hkey, busy] at turn
      exact turn.keeps idle (by simp)

/-- Who comes to compute is alone with it. -/
theorem step_alone_client (work : (t'.phase s.client).atWork) (work' : (t.phase j).atWork)
    (hkey : ((demands s.client).key == (demands j).key) = true) : s.client = j := by
  obtain ⟨work, -⟩ | ⟨empty, -⟩ := h.turn.of_atWork work
  · exact sound.alone _ _ work work' hkey
  · rw [SharedCache.slot_congr hkey, sound.busy j work'] at empty
    cases empty

theorem step_alone (work : (t'.phase i).atWork) (work' : (t'.phase j).atWork)
    (hkey : ((demands i).key == (demands j).key) = true) : i = j := by
  by_cases hi : i = s.client
  · by_cases hj : j = s.client
    · rw [hi, hj]
    · rw [h.others j hj] at work'
      subst hi
      exact sound.step_alone_client h work work' hkey
  · rw [h.others i hi] at work
    by_cases hj : j = s.client
    · subst hj
      exact (sound.step_alone_client h work' work (BEq.symm hkey)).symm
    · rw [h.others j hj] at work'
      exact sound.alone i j work work' hkey

theorem step_manned (busy : t'.cache.slot key = .busy) :
    ∃ i, (t'.phase i).atWork ∧ ((demands i).key == key) = true := by
  cases hkey : (demands s.client).key == key with
  | false =>
    rw [h.elsewhere key hkey] at busy
    obtain ⟨i, work, hi⟩ := sound.manned key busy
    refine ⟨i, ?_, hi⟩
    rwa [h.others i (by rintro rfl; simp [hkey] at hi)]
  | true =>
    have turn := h.turn
    rw [SharedCache.slot_congr hkey, SharedCache.slot_congr hkey, busy] at turn
    obtain work | ⟨busy, idle⟩ := turn.of_busy
    · exact ⟨s.client, work, hkey⟩
    · obtain ⟨i, work, hi⟩ := sound.manned key busy
      refine ⟨i, ?_, hi⟩
      rwa [h.others i (by rintro rfl; simp [idle] at work)]

theorem step_filled (full : t'.cache.slot key = .full r) :
    ∃ i, .succeed i r.value ∈ past ++ [s] ∧ ((demands i).key == key) = true ∧ t'.phase i = .answered (.ok r) := by
  have before (full : t.cache.slot key = .full r) :
      ∃ i, .succeed i r.value ∈ past ++ [s] ∧ ((demands i).key == key) = true ∧ t'.phase i = .answered (.ok r) := by
    obtain ⟨i, mem, hi, answer⟩ := sound.filled key r full
    exact ⟨i, List.mem_append_left _ mem, hi, h.done answer⟩
  cases hkey : (demands s.client).key == key with
  | false => exact before (by rwa [h.elsewhere key hkey] at full)
  | true =>
    have turn := h.turn
    rw [SharedCache.slot_congr hkey, SharedCache.slot_congr hkey, full] at turn
    obtain full | ⟨hs, answer⟩ := turn.of_full
    · exact before full
    · exact ⟨s.client, by rw [← hs]; simp, hkey, answer⟩

theorem step_agreed (answer : t'.phase i = .answered (.ok r)) :
    t'.cache.slot (demands i).key = .full r ∧ (demands i).accepts r.value = true := by
  by_cases hi : i = s.client
  · subst hi
    have turn := h.turn
    rw [answer] at turn
    obtain ⟨r', full, hr⟩ | ⟨r', full, hr, accepts⟩ | ⟨e, -, he⟩ := turn.of_answered
    · unfold answerOf at hr
      split at hr
      · obtain rfl := Except.ok.inj hr
        exact ⟨full, by assumption⟩
      · cases hr
    · obtain rfl := Except.ok.inj hr
      exact ⟨full, accepts⟩
    · cases he
  · rw [h.others i hi] at answer
    obtain ⟨full, accepts⟩ := sound.agreed i r answer
    exact ⟨sound.stays h full, accepts⟩

theorem step_refused {e : ε} (answer : t'.phase i = .answered (.error e)) : .fail i e ∈ past ++ [s] ∨
    ∃ r, t'.cache.slot (demands i).key = .full r ∧ (demands i).accepts r.value = false ∧
      e = mistyped (demands i).key.kind := by
  by_cases hi : i = s.client
  · subst hi
    have turn := h.turn
    rw [answer] at turn
    obtain ⟨r', full, hr⟩ | ⟨r', -, hr, -⟩ | ⟨e', hs, he⟩ := turn.of_answered
    · unfold answerOf at hr
      split at hr
      · cases hr
      · rename_i accepts
        exact .inr ⟨r', full, by simpa using accepts, Except.error.inj hr⟩
    · cases hr
    · obtain rfl := Except.error.inj he
      exact .inl (by rw [← hs]; simp)
  · rw [h.others i hi] at answer
    obtain mem | ⟨r, full, accepts, he⟩ := sound.refused i e answer
    · exact .inl (List.mem_append_left _ mem)
    · exact .inr ⟨r, sound.stays h full, accepts, he⟩

theorem step_once : (past ++ [s]).Pairwise fun a b =>
    a.isSuccess → b.computes → ((demands a.client).key == (demands b.client).key) = false := by
  refine List.pairwise_append.2 ⟨sound.once, List.pairwise_singleton _ _, fun a ha b hb success computes => ?_⟩
  obtain rfl := List.mem_singleton.1 hb
  cases a with
  | succeed i v =>
    obtain ⟨m, answer⟩ := sound.succeeded i v ha
    obtain ⟨full, -⟩ := sound.agreed i _ answer
    rw [Bool.eq_false_iff]
    intro hkey
    have full := (SharedCache.slot_congr hkey).symm.trans full
    rcases h.turn.of_computes computes with work | empty
    · rw [sound.busy _ work] at full
      cases full
    · rw [empty] at full
      cases full
  | _ => cases success

omit h in
/-- What is the case is so after one more step. -/
theorem step (h : t.step demands mistyped s = some t') : Sound demands mistyped (past ++ [s]) t' := by
  have took := took sound.placed h
  exact {
    placed := took.placed
    busy := fun _ => sound.step_busy took
    alone := fun _ _ => sound.step_alone took
    manned := fun _ => sound.step_manned took
    filled := fun _ _ => sound.step_filled took
    agreed := fun _ _ => sound.step_agreed took
    refused := fun _ _ => sound.step_refused took
    succeeded := fun _ _ => sound.step_succeeded took
    counted := sound.step_counted took
    once := sound.step_once took }

end Sound

/-- What is the case after any steps. -/
theorem run_sound [EquivBEq δ] {steps past : List (ClientStep α ε)} (sound : Sound demands mistyped past t)
    (h : t.run demands mistyped steps = some t') : Sound demands mistyped (past ++ steps) t' := by
  induction steps generalizing past t with
  | nil =>
    obtain rfl := Option.some.inj h
    simpa using sound
  | cons s steps ih =>
    rw [run, List.foldlM_cons] at h
    obtain ⟨t₁, h₁, h⟩ := Option.bind_eq_some_iff.1 h
    have := ih (sound.step h₁) h
    simpa using this

/-! ### What clients can rely on -/

variable (demands mistyped) in
/-- What clients can rely on after the steps. -/
structure Orderly (steps : List (ClientStep α ε)) (t : Traffic δ α ε) : Prop where
  /-- After a computation has succeeded none for the key begins or goes on. -/
  once : steps.Pairwise fun a b => a.isSuccess → b.computes → ((demands a.client).key == (demands b.client).key) = false
  /-- A good answer is what the cache holds and what a computation came to, and is of the type that was asked for. -/
  agreed : ∀ i r, t.phase i = .answered (.ok r) →
    t.cache.find? (demands i).key = some r ∧ (demands i).accepts r.value = true ∧
      ∃ j, .succeed j r.value ∈ steps ∧ ((demands j).key == (demands i).key) = true ∧ t.phase j = .answered (.ok r)
  /-- Good answers for one key are the same. -/
  same : ∀ i j r r', ((demands i).key == (demands j).key) = true →
    t.phase i = .answered (.ok r) → t.phase j = .answered (.ok r') → r = r'
  /-- A failure is that of the client's own computation, or there is a result of another type. -/
  refused : ∀ i e, t.phase i = .answered (.error e) → .fail i e ∈ steps ∨ ∃ r,
    t.cache.find? (demands i).key = some r ∧ (demands i).accepts r.value = false ∧ e = mistyped (demands i).key.kind
  /-- A computation that fails leaves no result, and every client of the key that has no answer can compute. -/
  retry : ∀ i e t', t.step demands mistyped (.fail i e) = some t' →
    t'.phase i = .answered (.error e) ∧ t'.cache.find? (demands i).key = none ∧
      ∀ j, ((demands i).key == (demands j).key) = true → (t'.phase j).pending = true →
        ∃ t'' k n, Reaches demands mistyped j t' t'' ∧ t''.phase j = .computing k n
  /-- A client that has no answer can compute if there is no result, unless another computes one. -/
  free : ∀ i, (t.phase i).pending = true → t.cache.find? (demands i).key = none →
    (∃ t' k n, Reaches demands mistyped i t t' ∧ t'.phase i = .computing k n) ∨
      ∃ j, (t.phase j).atWork = true ∧ ((demands j).key == (demands i).key) = true
  /-- Where there is a result of another type, a client learns this, and changes nothing. -/
  mismatch : ∀ i r, t.cache.find? (demands i).key = some r → (demands i).accepts r.value = false →
    (∀ s t', s.client = i → t.step demands mistyped s = some t' → t'.cache = t.cache ∧
      ∀ a, t'.phase i = .answered a → a = .error (mistyped (demands i).key.kind)) ∧
    ((t.phase i).pending = true → ∃ t', Reaches demands mistyped i t t' ∧
      t'.phase i = .answered (.error (mistyped (demands i).key.kind)) ∧ t'.cache = t.cache)
  /-- The computations that were started are counted. -/
  counted : t.cache.computations = steps.countP (·.isStart)

/-- A client that neither computes nor has to make its slot leaves the cache as it is. -/
theorem cache_of_not_computes {k : Nat} (made : t.cache.indexOf? (demands s.client).key = some k)
    (hs : s.computes = false) (h : t.step demands mistyped s = some t') : t'.cache = t.cache := by
  cases s with
  | lookUp i =>
    simp only [step] at h
    split at h
    · obtain rfl := Option.some.inj h
      exact congrArg Prod.snd (SharedCache.slotFor_of_indexOf? made)
    · cases h
  | take i =>
    simp only [step] at h
    split at h
    · split at h
      · obtain rfl := Option.some.inj h
        rfl
      · cases h
    · cases h
  | _ => cases hs

section
variable [EquivBEq δ] {past : List (ClientStep α ε)}

/-- Where a result of another type is, a client comes to no other answer and leaves the cache as it is. -/
theorem Sound.mismatch (sound : Sound demands mistyped past t) {r : Stored α}
    (full : t.cache.slot (demands s.client).key = .full r) (accepts : (demands s.client).accepts r.value = false)
    (h : t.step demands mistyped s = some t') :
    t'.cache = t.cache ∧ ∀ a, t'.phase s.client = .answered a → a = .error (mistyped (demands s.client).key.kind) := by
  have took := took sound.placed h
  have computes : s.computes = false := by
    rw [Bool.eq_false_iff]
    intro computes
    rcases took.turn.of_computes computes with work | empty
    · rw [sound.idle full] at work
      cases work
    · rw [full] at empty
      cases empty
  refine ⟨?_, fun a answer => ?_⟩
  · obtain ⟨k, made⟩ := SharedCache.exists_indexOf? full
    exact cache_of_not_computes made computes h
  · have turn := took.turn
    rw [answer, sound.stays took full] at turn
    obtain ⟨r', hr, rfl⟩ | ⟨r', hr, -, accepts'⟩ | ⟨e, hs, -⟩ := turn.of_answered
    · obtain rfl := Slot.full.inj hr
      rw [answerOf, accepts]
      rfl
    · obtain rfl := Slot.full.inj hr
      rw [accepts] at accepts'
      cases accepts'
    · rw [hs] at computes
      cases computes

/-- Whatever the order of the steps, clients can rely on the cache. -/
theorem orderly {steps : List (ClientStep α ε)} (h : start.run demands mistyped steps = some t) :
    Orderly demands mistyped steps t := by
  have sound : Sound demands mistyped steps t := run_sound start_sound h
  have agreed {i r} (answer : t.phase i = .answered (.ok r)) := sound.agreed i r answer
  refine ⟨sound.once, fun i r answer => ?_, fun i j r r' hkey answer answer' => ?_, fun i e answer => ?_,
    fun i e t' hfail => ?_, fun i pending none => ?_, fun i r full accepts => ⟨?_, ?_⟩, sound.counted⟩
  · obtain ⟨full, accepts⟩ := agreed answer
    obtain ⟨j, mem, hkey, answer'⟩ := sound.filled _ _ full
    exact ⟨SharedCache.find?_eq_some.2 full, accepts, j, mem, hkey, answer'⟩
  · have full := (agreed answer).1
    rw [SharedCache.slot_congr hkey, (agreed answer').1] at full
    exact (Slot.full.inj full).symm
  · simpa only [SharedCache.find?_eq_some] using sound.refused i e answer
  · have took := took sound.placed hfail
    obtain ⟨answer, empty⟩ := took.turn.of_fail
    rw [ClientStep.client] at answer empty
    refine ⟨answer, SharedCache.find?_eq_none.2 (by simp [empty]), fun j hkey pending => ?_⟩
    rw [SharedCache.slot_congr hkey] at empty
    obtain ⟨t'', k, reaches, -, computing, -⟩ := exists_computing mistyped took.placed pending empty
    exact ⟨t'', k, _, reaches, computing⟩
  · cases hslot : t.cache.slot (demands i).key with
    | empty =>
      obtain ⟨t', k, reaches, -, computing, -⟩ := exists_computing mistyped sound.placed pending hslot
      exact .inl ⟨t', k, _, reaches, computing⟩
    | busy => exact .inr (sound.manned _ hslot)
    | full r => exact absurd hslot (SharedCache.find?_eq_none.1 none r)
  · rintro s t' rfl hstep
    exact sound.mismatch (SharedCache.find?_eq_some.1 full) accepts hstep
  · intro pending
    obtain ⟨t', reaches, answer, same⟩ := exists_answered mistyped sound.placed pending (SharedCache.find?_eq_some.1 full)
    exact ⟨t', reaches, by rw [answer, answerOf, accepts]; rfl, same⟩

/-- The first client fails and the one that waits computes; the next takes its result, which the one after
that cannot use, and one with another key computes meanwhile. -/
theorem orderly_of_failure :
    let key (graph : Nat) : CacheKey Nat := ⟨.copy, .single graph, .usual, 0⟩
    let demands (i : Nat) : Demand Nat (Nat ⊕ String) := ⟨key (i / 4), if i = 3 then (·.isRight) else (·.isLeft)⟩
    let steps : List (ClientStep (Nat ⊕ String) Failure) :=
      [.lookUp 0, .enter 0, .lookUp 1, .lookUp 4, .compute 0, .enter 4, .fail 0 .cancelled, .enter 1, .compute 4,
        .lookUp 3, .compute 1, .succeed 1 (.inl 7), .lookUp 2, .take 3, .succeed 4 (.inl 9), .take 2]
    ∃ t, start.run demands .mistyped steps = some t ∧ Orderly demands .mistyped steps t ∧
      t.phase 2 = .answered (.ok ⟨3, .inl 7⟩) ∧ t.phase 3 = .answered (.error (.mistyped .copy)) :=
  ⟨_, rfl, orderly rfl, rfl, rfl⟩

/-! ### A client alone with the cache -/

/-- The shared cache is between computations and holds what the other cache does. -/
structure Stands (c : Cache δ α) (shared : SharedCache δ α) : Prop where
  found : ∀ key, shared.find? key = c.find? key
  idle : ∀ key, shared.slot key ≠ .busy
  computations : shared.computations = c.computations

namespace Stands

variable {c : Cache δ α} {shared shared' : SharedCache δ α} {key : CacheKey δ}

omit [EquivBEq δ] in
/-- A slot where the other cache has no result is empty. -/
theorem slot_eq (stands : Stands c shared) (h : c.find? key = none) : shared.slot key = .empty := by
  have hnone := SharedCache.find?_eq_none.1 ((stands.found key).trans h)
  cases hslot : shared.slot key with
  | empty => rfl
  | busy => exact absurd hslot (stands.idle key)
  | full r => exact absurd hslot (hnone r)

variable (stands : Stands c shared) (elsewhere : ∀ key', (key == key') = false → shared'.slot key' = shared.slot key')
  (count : shared'.computations = shared.computations + 1)
include stands elsewhere count

/-- A computation succeeds. -/
theorem complete {v : α} (full : shared'.slot key = .full ⟨shared.computations + 1, v⟩) :
    Stands (c.begin.complete key v) shared' where
  found key' := by
    cases hkey : key == key' with
    | true =>
      rw [SharedCache.find?_eq_some.2 ((SharedCache.slot_congr hkey).symm.trans full), stands.computations]
      simp [Cache.find?, Cache.complete, Cache.begin, hkey]
    | false =>
      rw [SharedCache.find?, elsewhere key' hkey, ← SharedCache.find?, stands.found]
      simp [Cache.find?, Cache.complete, Cache.begin, hkey]
  idle key' := by
    cases hkey : key == key' with
    | true => simp [← SharedCache.slot_congr hkey, full]
    | false => exact elsewhere key' hkey ▸ stands.idle key'
  computations := by rw [count, stands.computations]; rfl

/-- A computation fails. -/
theorem begin (empty : shared'.slot key = .empty) (h : c.find? key = none) : Stands c.begin shared' := by
  have same : ∀ key', shared'.slot key' = shared.slot key' := fun key' => by
    cases hkey : key == key' with
    | true => rw [← SharedCache.slot_congr hkey, ← SharedCache.slot_congr hkey, empty, stands.slot_eq h]
    | false => exact elsewhere key' hkey
  refine ⟨fun key' => ?_, fun key' => same key' ▸ stands.idle key', by rw [count, stands.computations]; rfl⟩
  rw [SharedCache.find?, same, ← SharedCache.find?, stands.found]
  rfl

end Stands

/-- Where a client comes that is alone with the cache a request comes to the same answer, and the caches
hold the same. -/
theorem exists_of_request {σ β : Type} {view : Cache.View α β} (reads : ∀ b, view.read (view.write b) = some b)
    {compute : ExceptT ε (StateM σ) β} {c c' : Cache δ α} {s s' : σ} {a : Except ε (Stored β)}
    (demand : (demands i).accepts = fun v => (view.read v).isSome) (placed : Placed demands t)
    (pending : (t.phase i).pending) (stands : Stands c t.cache)
    (h : Cache.request view mistyped (demands i).key compute (c, s) = (a, (c', s'))) :
    ∃ t' a', Reaches demands mistyped i t t' ∧ Stands c' t'.cache ∧ t'.phase i = .answered a' ∧
      (a'.map fun r => (r.number, view.read r.value)) = a.map fun r => (r.number, some r.value) := by
  unfold Cache.request at h
  dsimp only at h
  cases hfind : c.find? (demands i).key with
  | some r =>
    simp only [hfind] at h
    have full := SharedCache.find?_eq_some.1 ((stands.found _).trans hfind)
    obtain ⟨t', reaches, answer, same⟩ := exists_answered mistyped placed pending full
    cases hread : view.read r.value with
    | some b =>
      simp only [hread] at h
      cases h
      exact ⟨t', _, reaches, same ▸ stands, answer, by simp [answerOf, demand, hread, Except.map]⟩
    | none =>
      simp only [hread] at h
      cases h
      exact ⟨t', _, reaches, same ▸ stands, answer, by simp [answerOf, demand, hread, Except.map]⟩
  | none =>
    simp only [hfind] at h
    obtain ⟨t₁, k, reaches, placed₁, computing, count, elsewhere⟩ :=
      exists_computing mistyped placed pending (stands.slot_eq hfind)
    split at h
    · rename_i b s₁ hrun
      cases h
      have step : t₁.step demands mistyped (.succeed i (view.write b)) =
          some (t₁.move i (.answered (.ok ⟨t.cache.computations + 1, view.write b⟩))
            (t₁.cache.put k (.full ⟨t.cache.computations + 1, view.write b⟩))) := by
        simp [step, computing, demand, reads]
      have took := took placed₁ step
      refine ⟨_, _, reaches.trans (.head rfl step .refl), stands.complete (fun key' hkey => ?_) ?_ ?_, phase_move_self, ?_⟩
      · rw [took.elsewhere key' hkey, elsewhere key' hkey]
      · rw [took.counted, count]
        rfl
      · exact SharedCache.slot_put_self (placed₁ i k (by rw [computing]; rfl))
      · simp [Except.map, reads, stands.computations, Cache.begin]
    · rename_i e s₁ hrun
      cases h
      have step : t₁.step demands mistyped (.fail i e) = some (t₁.move i (.answered (.error e)) (t₁.cache.put k .empty)) := by
        simp [step, computing]
      have took := took placed₁ step
      refine ⟨_, _, reaches.trans (.head rfl step .refl), stands.begin (fun key' hkey => ?_) ?_ ?_ hfind, phase_move_self, rfl⟩
      · rw [took.elsewhere key' hkey, elsewhere key' hkey]
      · rw [took.counted, count]
        rfl
      · exact SharedCache.slot_put_self (placed₁ i k (by rw [computing]; rfl))

end

end Traffic

end Dataflow
