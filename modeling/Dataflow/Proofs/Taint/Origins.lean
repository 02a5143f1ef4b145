import Dataflow.Proofs.Calls.Recall
import Dataflow.Proofs.State.Order
import Dataflow.Proofs.Taint.Quiet

/-!
# Origins of untrusted data

On the side the analysis of taint notes which accesses brought the data of an entity or an operation in. A hit takes its
sources from these notes; so it has none if untrusted data went some way that its origins did not.

## The notions

* `Notes.Covers`: origins are noted for all entities that hold untrusted data.
* `Sourced`: that is so in a machine, and all hits have sources.
* `Accounted`: an operation keeps a machine sourced, and origins are noted for its value.

## What is proved

Reads, stores and all other operations but calls are accounted for if their operands are, and if whatever may be the same
storage as the target of a store has origins already (`own_accounted`).
-/

namespace Dataflow

theorem FinSet.ne_empty_iff {α : Type} [Ord α] [Std.TransOrd α] [Std.LawfulEqOrd α] {s : FinSet α} :
    s ≠ FinSet.empty ↔ ∃ a, a ∈ s := by
  constructor
  · intro h
    by_contra none
    exact h (FinSet.ext fun x => iff_of_false (fun hx => none ⟨x, hx⟩) (FinSet.not_mem_empty x))
  · rintro ⟨a, ha⟩ rfl
    exact FinSet.not_mem_empty a ha

/-! ### Hits with sources -/

/-- There is a place where the data may come from. -/
def SinkHit.Evident (hit : SinkHit) : Prop := hit.sources ≠ FinSet.empty

/-- All hits have sources. -/
def HitSet.Evident (s : HitSet) : Prop := ∀ k hit, s.find? k = some hit → hit.Evident

/-- All hits of all call sites have sources. -/
def HitLog.Evident (log : HitLog) : Prop := ∀ site s, log.sites.find? site = some s → HitSet.Evident s

/-- All hits that were found in a body have sources. -/
def Solution.Evident {V : Type} (sol : Solution V) : Prop := ∀ hit ∈ sol.hits.hits, hit.Evident

variable {hit : SinkHit} {l : List SinkHit}

theorem HitSet.evident_empty : HitSet.Evident FinMap.empty := fun k hit h => by simp at h

/-- A hit that was there already has the sources of both. -/
theorem HitSet.Evident.add {s : HitSet} (h : s.Evident) (evident : hit.Evident) : (s.add hit).Evident := by
  have insert {new : SinkHit} (hnew : new.Evident) : HitSet.Evident (s.insert hit.key new) :=
    fun _ _ hk => FinMap.find?_insert_ind hk hnew h
  rw [HitSet.add]
  cases s.find? hit.key with
  | none => exact insert evident
  | some old =>
    obtain ⟨a, ha⟩ := FinSet.ne_empty_iff.1 evident
    exact insert (FinSet.ne_empty_iff.2 ⟨a, FinSet.mem_union.2 (.inr ha)⟩)

theorem HitSet.Evident.foldl {s : HitSet} (h : s.Evident) (evident : ∀ hit ∈ l, hit.Evident) :
    (l.foldl HitSet.add s).Evident := by
  induction l generalizing s with
  | nil => exact h
  | cons hit l ih =>
    exact ih (h.add (evident hit List.mem_cons_self)) fun other hmem => evident other (List.mem_cons_of_mem _ hmem)

theorem HitSet.Evident.values {s : HitSet} (h : s.Evident) : ∀ hit ∈ s.values, hit.Evident := by
  intro hit hmem
  obtain ⟨⟨k, hit⟩, hentry, rfl⟩ := List.mem_map.1 hmem
  exact h k hit (FinMap.mem_entries.1 hentry)

namespace HitLog

variable {log other : HitLog} {site : OperationId}

theorem evident_empty : empty.Evident := fun site s h => by simp [empty] at h

theorem Evident.record (h : log.Evident) (evident : hit.Evident) : (log.record site hit).Evident := by
  have before : HitSet.Evident ((log.sites.find? site).getD FinMap.empty) := by
    cases hs : log.sites.find? site with
    | none => exact HitSet.evident_empty
    | some s => exact h site s hs
  exact fun _ _ hs => FinMap.find?_insert_ind hs (before.add evident) h

theorem Evident.withdraw (h : log.Evident) : (log.withdraw site).Evident := by
  intro i s hs
  by_cases hi : i = site
  · simp [HitLog.withdraw, hi] at hs
  · exact h i s ((FinMap.find?_erase_ne log.sites hi).symm.trans hs)

/-- The hits of a callee are taken over as they are. -/
theorem Evident.absorb (h : log.Evident) (evident : ∀ hit ∈ other.hits, hit.Evident) : (log.absorb site other).Evident := by
  rw [HitLog.absorb]
  generalize other.hits = l at evident
  induction l generalizing log with
  | nil => exact h
  | cons hit l ih =>
    exact ih (h.record (evident hit List.mem_cons_self)) fun hit' hmem => evident hit' (List.mem_cons_of_mem _ hmem)

theorem Evident.hits (h : log.Evident) : ∀ hit ∈ log.hits, hit.Evident := by
  refine HitSet.Evident.values (HitSet.evident_empty.foldl fun hit hmem => ?_)
  obtain ⟨s, hs, hmem⟩ := List.mem_flatMap.1 hmem
  obtain ⟨⟨site, s⟩, hentry, rfl⟩ := List.mem_map.1 hs
  exact (h site s (FinMap.mem_entries.1 hentry)).values hit hmem

end HitLog

/-! ### Untrusted data in states -/

theorem Taint.merge_eq_tainted {a b : Taint} (h : a.merge b = .tainted) : a = .tainted ∨ b = .tainted := by
  revert h
  cases a <;> cases b <;> decide

theorem Taint.foldl_merge_eq_tainted {l : List Taint} {a : Taint} (h : l.foldl Taint.merge a = .tainted) :
    a = .tainted ∨ .tainted ∈ l := by
  induction l generalizing a with
  | nil => exact .inl h
  | cons b l ih =>
    rcases ih h with hab | hl
    · rcases Taint.merge_eq_tainted hab with ha | rfl
      · exact .inl ha
      · exact .inr List.mem_cons_self
    · exact .inr (List.mem_cons_of_mem _ hl)

namespace State

variable {s t : State Taint} {e a : Entity} {v : Taint}

/-- What is not tracked is trusted. -/
theorem find?_of_tainted (h : valueOr Domain.taint s e = .tainted) : s.find? e = some .tainted := by
  cases held : s.find? e with
  | none =>
    rw [valueOr_of_not_mentioned _ held] at h
    cases h
  | some v =>
    rw [valueOr_of_find? _ held] at h
    rw [h]

/-- An entity holds untrusted data after a write only if it did before, or such data may have been written to it. -/
theorem tainted_of_write (h : (write Domain.taint e v s).find? a = some .tainted) :
    s.find? a = some .tainted ∨ v = .tainted ∧ (a = e ∨ a ∈ aliases e s) := by
  rw [find?_write] at h
  split at h
  · rename_i hae
    subst hae
    split at h
    · exact (Taint.merge_eq_tainted (Option.some.inj h)).imp find?_of_tainted fun hv => ⟨hv, .inl rfl⟩
    · exact .inr ⟨Option.some.inj h, .inl rfl⟩
  · rename_i hae
    split at h
    · rename_i halias
      obtain ⟨u, hu, hmerge⟩ := Option.map_eq_some_iff.1 h
      rcases Taint.merge_eq_tainted hmerge with rfl | hv
      · exact .inl hu
      · exact .inr ⟨hv, .inr (mem_aliases.2 ⟨by rw [hu]; rfl, hae, halias⟩)⟩
    · exact .inl h

theorem tainted_of_merge (h : (merge Domain.taint s t).find? e = some .tainted) :
    s.find? e = some .tainted ∨ t.find? e = some .tainted := by
  rw [find?_merge] at h
  split at h
  · exact (Taint.merge_eq_tainted (Option.some.inj h)).imp find?_of_tainted find?_of_tainted
  · cases h

theorem tainted_of_widen (h : (widen Domain.taint s t).find? e = some .tainted) :
    s.find? e = some .tainted ∨ t.find? e = some .tainted := by
  have widened {a b : Taint} (h : widenValue Domain.taint a b = .tainted) : a = .tainted ∨ b = .tainted := by
    revert h
    cases a <;> cases b <;> decide
  rw [find?_widen] at h
  split at h
  · exact (widened (Option.some.inj h)).imp find?_of_tainted find?_of_tainted
  · cases h

end State

/-! ### Notes of origins -/

namespace Notes

variable {V : Type} (n : Notes V)

/-- Where the data in an entity may come from. -/
def originsIn (e : Entity) : FinSet SymbolAccess := (n.entityOrigins.find? e).getD FinSet.empty

/-- Where the data of an operation may come from. -/
def originsAt (op : OperationId) : FinSet SymbolAccess := (n.operationOrigins.find? op).getD FinSet.empty

/-- Origins are noted for every entity that holds untrusted data. -/
def Covers (n : Notes Taint) (s : State Taint) : Prop := ∀ e, s.find? e = some .tainted → n.originsIn e ≠ FinSet.empty

/-- What origins were noted for has some later. -/
def Remembers (n n' : Notes V) : Prop := ∀ e, n.originsIn e ≠ FinSet.empty → n'.originsIn e ≠ FinSet.empty

namespace Covers

variable {n n' : Notes Taint} {s t : State Taint} {e : Entity} {v : Taint}

theorem mono (h : n.Covers s) (grows : n.Remembers n') : n'.Covers s := fun e he => grows e (h e he)

theorem write (h : n.Covers s)
    (known : v = .tainted → n.originsIn e ≠ FinSet.empty ∧ ∀ a ∈ State.aliases e s, n.originsIn a ≠ FinSet.empty) :
    n.Covers (State.write Domain.taint e v s) := by
  intro a ha
  rcases State.tainted_of_write ha with held | ⟨hv, rfl | halias⟩
  · exact h a held
  · exact (known hv).1
  · exact (known hv).2 a halias

/-- Writes of other data. -/
theorem writeAll {l : List (Entity × Taint)} (h : n.Covers s) (hl : ∀ x ∈ l, x.2 ≠ .tainted) :
    n.Covers (State.writeAll Domain.taint l s) := by
  rw [State.writeAll]
  induction l generalizing s with
  | nil => exact h
  | cons x l ih =>
    exact ih (h.write fun hx => absurd hx (hl x List.mem_cons_self)) fun y hy => hl y (List.mem_cons_of_mem _ hy)

theorem erase (h : n.Covers s) (e : Entity) : n.Covers (s.erase e) := by
  intro a ha
  by_cases hae : a = e
  · simp [hae] at ha
  · exact h a ((FinMap.find?_erase_ne s hae).symm.trans ha)

theorem merge (h : n.Covers s) (h' : n.Covers t) : n.Covers (State.merge Domain.taint s t) :=
  fun e he => (State.tainted_of_merge he).elim (h e) (h' e)

theorem widen (h : n.Covers s) (h' : n.Covers t) : n.Covers (State.widen Domain.taint s t) :=
  fun e he => (State.tainted_of_widen he).elim (h e) (h' e)

end Covers

end Notes

namespace Analysis

namespace TaintAnalysis

variable {rules : TaintRules} {ctx : Context Taint} {m m' m'' : Machine Taint} {op : Operation} {v : Taint}

/-! ### Machines -/

/-- Origins are noted for all untrusted data in storage, and all hits have sources. -/
structure Sourced (m : Machine Taint) : Prop where
  /-- The storage. -/
  entities : m.notes.Covers m.state
  /-- The hits of the body. -/
  hits : m.notes.hits.Evident
  /-- The hits of bodies whose solutions are on file. -/
  files : m.ledger.Files Solution.Evident

/-- The machines are the same but for names, values and the origins of an operation. -/
structure Marks (op : OperationId) (m m' : Machine Taint) : Prop where
  /-- The state. -/
  state : m'.state = m.state
  /-- The ledger. -/
  ledger : m'.ledger = m.ledger
  /-- The hits. -/
  hits : m'.notes.hits = m.notes.hits
  /-- The origins of entities. -/
  entities : m'.notes.entityOrigins = m.notes.entityOrigins
  /-- The origins of other operations. -/
  others : ∀ i, i ≠ op → m'.notes.originsAt i = m.notes.originsAt i

theorem marks_steady (op : OperationId) : Visit.Steady (Marks op) where
  refl _ := ⟨rfl, rfl, rfl, rfl, fun _ _ => rfl⟩
  trans h h' := ⟨h'.state.trans h.state, h'.ledger.trans h.ledger, h'.hits.trans h.hits, h'.entities.trans h.entities,
    fun i hi => (h'.others i hi).trans (h.others i hi)⟩

/-- It notes no origins of its own: it returns from the method, or captures where storage is. -/
def isSilent : Operation → Bool
  | .ret .. => true
  | .capture _ _ _ byLocation => byLocation
  | _ => false

/-- An operation with its operands, whose identifiers are listed, keeps a machine sourced, and origins are noted for its
value if it is untrusted. -/
structure Accounted (ids : List OperationId) (op : Operation) (m : Machine Taint) (v : Taint) (m' : Machine Taint) : Prop where
  /-- The machine is sourced. -/
  sourced : Sourced m'
  /-- Origins are kept. -/
  remembers : m.notes.Remembers m'.notes
  /-- The value has origins. -/
  value : v = .tainted → isSilent op = true ∨ m'.notes.originsAt op.id ≠ FinSet.empty
  /-- Those of other operations are the same. -/
  others : ∀ i, i ∉ ids → m'.notes.originsAt i = m.notes.originsAt i

theorem Marks.originsIn {i : OperationId} (h : Marks i m m') (e : Entity) : m'.notes.originsIn e = m.notes.originsIn e := by
  rw [Notes.originsIn, h.entities, Notes.originsIn]

/-- What only marks an operation keeps the machine sourced. -/
theorem Marks.sourced {i : OperationId} (h : Marks i m m') (sourced : Sourced m) : Sourced m' where
  entities e he := by
    rw [h.originsIn]
    exact sourced.entities e (h.state ▸ he)
  hits := h.hits ▸ sourced.hits
  files := h.ledger ▸ sourced.files

theorem Marks.accounted (h : Marks op.id m m') (sourced : Sourced m)
    (value : v = .tainted → isSilent op = true ∨ m'.notes.originsAt op.id ≠ FinSet.empty) : Accounted [op.id] op m v m' where
  sourced := h.sourced sourced
  remembers e he := by rwa [h.originsIn]
  value := value
  others i hi := h.others i (by simpa using hi)

/-- What is accounted for later is accounted for if nothing was noted of origins before. -/
theorem Accounted.of_same {ids : List OperationId} (later : Accounted ids op m' v m'')
    (storage : ∀ e, m'.notes.originsIn e = m.notes.originsIn e) (operations : m'.notes.originsAt = m.notes.originsAt) :
    Accounted ids op m v m'' where
  sourced := later.sourced
  remembers e he := later.remembers e (by rwa [storage])
  value := later.value
  others i hi := (later.others i hi).trans (congrFun operations i)

/-! ### Notes of origins -/

theorem ensures_setOrigins_marks (op : OperationId) (origins : FinSet SymbolAccess) (m : Machine Taint) :
    Visit.Ensures (Visit.setOrigins op origins) m fun _ m' => Marks op m m' ∧ m'.notes.originsAt op = origins := by
  rw [Visit.setOrigins, Visit.ensures_modifyNotes]
  cases empty : origins.isEmpty with
  | true =>
    refine ⟨⟨rfl, rfl, rfl, rfl, fun i hi => ?_⟩, ?_⟩
    · simp [Notes.originsAt, FinMap.find?_erase_ne _ hi]
    · simp [Notes.originsAt, FinSet.isEmpty_iff.1 empty]
  | false =>
    refine ⟨⟨rfl, rfl, rfl, rfl, fun i hi => ?_⟩, ?_⟩
    · simp [Notes.originsAt, FinMap.find?_insert_ne _ _ hi]
    · simp [Notes.originsAt]

/-- What an operation has by its own access comes from there. -/
theorem bringIn_marks (symbol : Symbol) (op : Operation) (m : Machine Taint) :
    Visit.Ensures (bringIn ctx symbol op) m fun _ m' =>
      Marks op.id m m' ∧ m'.notes.originsAt op.id ≠ FinSet.empty := by
  rw [bringIn, Visit.ensures_bind]
  refine (ensures_setOrigins_marks _ _ m).mono fun _ m' noted => ?_
  rw [Visit.ensures_pure, noted.2]
  exact ⟨noted.1, FinSet.ne_empty_iff.2 ⟨access ctx symbol op, FinSet.mem_singleton.2 rfl⟩⟩

theorem mem_originsOfAll (n : Notes Taint) {ops : List Operation} {a : SymbolAccess} {s : FinSet SymbolAccess}
    (h : a ∈ s ∨ ∃ o ∈ ops, a ∈ n.originsAt o.id) :
    a ∈ ops.foldl (fun s op => s.union ((n.operationOrigins.find? op.id).getD FinSet.empty)) s := by
  induction ops generalizing s with
  | nil => simpa using h
  | cons op ops ih =>
    refine ih ?_
    rcases h with hs | ⟨o, ho, ha⟩
    · exact .inl (FinSet.mem_union.2 (.inl hs))
    · rcases List.mem_cons.1 ho with rfl | ho
      · exact .inl (FinSet.mem_union.2 (.inr ha))
      · exact .inr ⟨o, ho, ha⟩

/-- The origins of operands are passed on. -/
theorem passOn_marks (m : Machine Taint)
    (known : v = .tainted → ∃ o ∈ op.operands, m.notes.originsAt o.id ≠ FinSet.empty) :
    Visit.Ensures (passOn op v) m fun w m' => Marks op.id m m' ∧
      (w = .tainted → m'.notes.originsAt op.id ≠ FinSet.empty) := by
  simp only [passOn, Visit.originsOfAll, Visit.ensures_bind, Visit.ensures_notes, Visit.ensures_pure]
  refine (ensures_setOrigins_marks _ _ m).mono fun _ m' noted => ⟨noted.1, fun hv => ?_⟩
  obtain ⟨o, ho, origins⟩ := known hv
  obtain ⟨a, ha⟩ := FinSet.ne_empty_iff.1 origins
  rw [noted.2]
  exact FinSet.ne_empty_iff.2 ⟨a, mem_originsOfAll m.notes (.inr ⟨o, ho, ha⟩)⟩

/-- What is read comes from where the data in the entity comes from. -/
theorem readEntity_marks (op : Operation) (e : Option Entity) (covers : m.notes.Covers m.state) :
    Visit.Ensures (readEntity op e) m fun v m' => Marks op.id m m' ∧
      (v = .tainted → m'.notes.originsAt op.id ≠ FinSet.empty) := by
  unfold readEntity
  rw [Visit.ensures_bind, Visit.ensures_entityOriginsOf, Visit.ensures_bind]
  refine (ensures_setOrigins_marks _ _ m).mono fun _ m' noted => ?_
  cases e with
  | none => exact (Visit.ensures_pure _ _ _).2 ⟨noted.1, fun h => by cases h⟩
  | some e =>
    rw [Visit.ensures_bind, Visit.ensures_state, Visit.ensures_pure]
    refine ⟨noted.1, fun tainted => ?_⟩
    rw [noted.1.state] at tainted
    rw [noted.2]
    exact covers e (State.find?_of_tainted tainted)

theorem reference_marks (op : Operation) (e : Option Entity) (covers : m.notes.Covers m.state) :
    Visit.Ensures (reference rules ctx op e) m fun v m' => Marks op.id m m' ∧
      (v = .tainted → m'.notes.originsAt op.id ≠ FinSet.empty) := by
  have brought (field : Symbol) : Visit.Ensures (bringIn ctx field op) m fun v m' => Marks op.id m m' ∧
      (v = .tainted → m'.notes.originsAt op.id ≠ FinSet.empty) :=
    (bringIn_marks field op m).mono fun _ _ noted => ⟨noted.1, fun _ => noted.2⟩
  rw [reference]
  split
  · split
    · exact brought _
    · exact readEntity_marks op e covers
  · exact readEntity_marks op e covers

/-! ### Operations -/

/-- The storage that untrusted data is stored into in a turn. -/
def storedTaint (t : Visit.Turn Taint) : Option Entity :=
  match t.op, t.seen with
  | .assignment .., [target, value] => if value.value = .tainted then target.entity else none
  | .capture _ _ _ false, [value] =>
    if value.value = .tainted then (t.machine.notes.resolver.resolve t.op none []).1 else none
  | _, _ => none

/-- An operand with untrusted data has origins. -/
def Known (n : Notes Taint) (o : Operation) (s : Seen Taint) : Prop :=
  s.value = .tainted → n.originsAt o.id ≠ FinSet.empty

/-- Untrusted data is among the operands, and so are its origins. -/
theorem exists_origin {n : Notes Taint} {ops : List Operation} {seen : List (Seen Taint)}
    (known : List.Forall₂ (Known n) ops seen) {s : Seen Taint} (hs : s ∈ seen) (tainted : s.value = .tainted) :
    ∃ o ∈ ops, n.originsAt o.id ≠ FinSet.empty := by
  obtain ⟨o, ho, hos⟩ := exists_of_mem_right known hs
  exact ⟨o, ho, hos tainted⟩

/-- Further origins of an entity are noted. -/
theorem ensures_addEntityOrigins_remembers (e : Entity) (origins : FinSet SymbolAccess) (m : Machine Taint) :
    Visit.Ensures (Visit.addEntityOrigins e origins) m fun _ m' => m'.state = m.state ∧ m'.ledger = m.ledger ∧
      m'.notes.hits = m.notes.hits ∧ m'.notes.originsAt = m.notes.originsAt ∧ m.notes.Remembers m'.notes ∧
      (origins ≠ FinSet.empty → m'.notes.originsIn e ≠ FinSet.empty) := by
  rw [Visit.addEntityOrigins, Visit.ensures_modifyNotes]
  cases empty : origins.isEmpty with
  | true => exact ⟨rfl, rfl, rfl, rfl, fun _ h => by simpa [Notes.originsIn] using h,
      fun h => absurd (FinSet.isEmpty_iff.1 empty) h⟩
  | false =>
    have some : origins ≠ FinSet.empty := fun h => by simp [h, FinSet.isEmpty_iff.2 rfl] at empty
    obtain ⟨a, ha⟩ := FinSet.ne_empty_iff.1 some
    have new : ((m.notes.entityOrigins.find? e).getD FinSet.empty).union origins ≠ FinSet.empty :=
      FinSet.ne_empty_iff.2 ⟨a, FinSet.mem_union.2 (.inr ha)⟩
    refine ⟨rfl, rfl, rfl, rfl, fun e' h => ?_, fun _ => ?_⟩
    · by_cases he : e' = e
      · simpa [Notes.originsIn, he] using new
      · simpa [Notes.originsIn, FinMap.find?_insert_ne _ _ he] using h
    · simpa [Notes.originsIn] using new

/-- A store hands on the origins of the value. What may be the same storage as the target must have some. -/
theorem assign_accounted {value : Operation} (stored : storedValue? op = some value) (sourced : Sourced m)
    (known : v = .tainted → m.notes.originsAt value.id ≠ FinSet.empty) (target : Option Entity)
    (aliases : v = .tainted → ∀ e ∈ target, ∀ a ∈ State.aliases e m.state, m.notes.originsIn a ≠ FinSet.empty) :
    Visit.Ensures (assign op target v) m fun w m' => Accounted [op.id] op m w m' := by
  unfold assign
  rw [stored]
  dsimp only
  rw [Visit.ensures_bind, Visit.ensures_originsOf]
  have noted (origins : FinSet SymbolAccess) (m : Machine Taint) : Visit.Ensures (do
      Visit.setOrigins op.id origins
      return v : Visit Taint Taint) m fun w m' => w = v ∧ Marks op.id m m' ∧ m'.notes.originsAt op.id = origins := by
    rw [Visit.ensures_bind]
    exact (ensures_setOrigins_marks _ _ m).mono fun _ m' noted => (Visit.ensures_pure _ _ _).2 ⟨rfl, noted⟩
  cases target with
  | none =>
    refine (noted _ m).mono fun w m' does => ?_
    obtain ⟨rfl, marks, origins⟩ := does
    exact marks.accounted sourced fun tainted => .inr (origins ▸ known tainted)
  | some e =>
    dsimp only
    rw [Visit.ensures_bind]
    refine (ensures_addEntityOrigins_remembers e _ m).mono fun _ m₁ added => ?_
    obtain ⟨state, ledger, hits, operations, remembers, new⟩ := added
    rw [Visit.ensures_bind, Visit.ensures_state, Visit.ensures_bind, Visit.ensures_setState]
    refine (noted _ _).mono fun w m' does => ?_
    obtain ⟨rfl, marks, origins⟩ := does
    -- The target has the origins of the value, and so do all that hold the value now.
    have covers : m₁.notes.Covers (State.write Domain.taint e w m₁.state) := by
      rw [state]
      refine (sourced.entities.mono remembers).write fun tainted => ⟨new (known tainted), fun a ha => ?_⟩
      exact remembers a (aliases tainted e rfl a ha)
    have written : Sourced { m₁ with state := State.write Domain.taint e w m₁.state } :=
      ⟨covers, hits ▸ sourced.hits, ledger ▸ sourced.files⟩
    have after := marks.accounted written fun tainted => .inr (origins ▸ known tainted)
    exact ⟨after.sourced, fun a ha => after.remembers a (remembers a ha), after.value,
      fun i hi => (after.others i hi).trans (congrFun operations i)⟩

theorem ensures_resolve_marks (op : Operation) (owner : Option PointsTo) (indices : List ElementIndex) (m : Machine Taint) :
    Visit.Ensures (Visit.resolve op owner indices) m fun e m' => e = (m.notes.resolver.resolve op owner indices).1 ∧
      Marks op.id m m' ∧ m'.notes.originsAt = m.notes.originsAt :=
  (Visit.ensures_resolve op owner indices m _).2 ⟨rfl, ⟨rfl, rfl, rfl, rfl, fun _ _ => rfl⟩, rfl⟩

theorem exists_of_mem_zipWith {α β γ : Type} {f : α → β → γ} {as : List α} {bs : List β} {c : γ}
    (h : c ∈ List.zipWith f as bs) : ∃ a b, (a, b) ∈ as.zip bs ∧ f a b = c := by
  rw [← List.map_uncurry_zip_eq_zipWith] at h
  simpa using h

/-- A value that is captured is stored into the captured variable. -/
theorem capture_accounted {info : OperationInfo} {c : CaptureId} {value : Operation} {seen : Seen Taint}
    (sourced : Sourced m) (known : Known m.notes value seen)
    (aliases : ∀ e ∈ storedTaint ⟨.capture info c value false, [seen], m⟩, ∀ a ∈ State.aliases e m.state,
      m.notes.originsIn a ≠ FinSet.empty) :
    Visit.Ensures (Visit.resolve (.capture info c value false) none [] >>= fun e =>
        assign (.capture info c value false) e seen.value) m
      fun v m' => Accounted [info.id] (.capture info c value false) m v m' := by
  rw [Visit.ensures_bind]
  refine (ensures_resolve_marks _ none [] m).mono fun e m₁ resolved => ?_
  obtain ⟨rfl, marks, same⟩ := resolved
  have stored : storedValue? (.capture info c value false) = some value := rfl
  refine Visit.Ensures.mono (assign_accounted stored (marks.sourced sourced) (fun tainted => ?_) _ fun tainted e he a ha => ?_)
    fun w m' does => does.of_same marks.originsIn same
  · rw [same]
    exact known tainted
  · rw [marks.originsIn]
    rw [marks.state] at ha
    exact aliases e (by simpa [storedTaint, tainted] using he) a ha

/-- An operation that is no call hands on the origins of the operands with untrusted data. -/
theorem own_accounted {usual : Call Taint → Visit Taint Taint} (notCall : ¬IsCall op) {seen : List (Seen Taint)}
    (sourced : Sourced m) (known : List.Forall₂ (Known m.notes) op.operands seen)
    (aliases : ∀ e ∈ storedTaint ⟨op, seen, m⟩, ∀ a ∈ State.aliases e m.state, m.notes.originsIn a ≠ FinSet.empty) :
    Visit.Ensures ((taint rules).own ctx usual op seen) m fun v m' => Accounted [op.id] op m v m' := by
  have clean : Visit.Ensures (pure .notTainted : Visit Taint Taint) m fun v m' => Accounted [op.id] op m v m' :=
    (Visit.ensures_pure _ _ _).2 (((marks_steady op.id).refl m).accounted sourced fun h => by cases h)
  have read (owner : Option PointsTo) (indices : List ElementIndex) :
      Visit.Ensures (Visit.resolve op owner indices >>= (taint rules).reference ctx op) m fun v m' =>
        Accounted [op.id] op m v m' := by
    rw [Visit.ensures_bind]
    refine (ensures_resolve_marks op owner indices m).mono fun e m₁ resolved => ?_
    obtain ⟨-, marks, -⟩ := resolved
    refine Visit.Ensures.mono (reference_marks op e (marks.sourced sourced).entities) fun v m' does => ?_
    exact ((marks_steady op.id).trans marks does.1).accounted sourced fun h => .inr (does.2 h)
  have passes (v : Taint) (h : v = .tainted → ∃ s ∈ seen, s.value = .tainted) :
      Visit.Ensures (passOn op v) m fun v m' => Accounted [op.id] op m v m' := by
    refine (passOn_marks m fun hv => ?_).mono fun w m' does => does.1.accounted sourced fun h => .inr (does.2 h)
    obtain ⟨s, hs, tainted⟩ := h hv
    exact exists_origin known hs tainted
  cases op with
  | literal | invalid | arrayCreation => exact clean
  | localRef | parameterRef | receiverRef | captureRef | fieldRef => exact read _ _
  | elementRef =>
    cases seen with
    | nil => exact clean
    | cons => exact read _ _
  | assignment info target value =>
    match seen, known with
    | [t, v], .cons _ (.cons hv .nil) =>
      have stored : storedValue? (.assignment info target value) = some value := rfl
      refine assign_accounted stored sourced hv t.entity fun tainted e he => aliases e ?_
      simpa [storedTaint, tainted] using he
  | objectCreation info arguments =>
    refine passes _ fun merged => ?_
    rcases Taint.foldl_merge_eq_tainted merged with h | h
    · cases h
    · obtain ⟨a, ha, tainted⟩ := List.mem_map.1 h
      obtain ⟨x, s, hx, rfl⟩ := exists_of_mem_zipWith ha
      exact ⟨s, (List.of_mem_zip hx).2, tainted⟩
  | binary info operator left right =>
    match seen with
    | [] | [_] | _ :: _ :: _ :: _ => exact clean
    | [l, r] =>
      refine passes _ fun merged => ?_
      rcases Taint.merge_eq_tainted merged with h | h
      · exact ⟨l, List.mem_cons_self, h⟩
      · exact ⟨r, by simp, h⟩
  | conversion info operand =>
    match seen with
    | [] | _ :: _ :: _ => exact clean
    | [v] => exact passes _ fun h => ⟨v, List.mem_cons_self, h⟩
  | invocation info method receiver arguments => exact absurd ⟨info, method, receiver, arguments, rfl⟩ notCall
  | capture info c value byLocation =>
    match seen, known, byLocation with
    | [v], .cons hv .nil, false => exact capture_accounted sourced hv aliases
    | [⟨v, none⟩], _, true =>
      exact (Visit.ensures_pure _ _ _).2 (((marks_steady _).refl m).accounted sourced fun _ => .inl rfl)
    | [⟨v, some e⟩], _, true =>
      show Visit.Ensures (do
        Visit.recordEntity info.id (some e)
        Visit.bindCapture c e
        return v) m _
      simp only [Visit.recordEntity, Visit.bindCapture, Visit.ensures_bind, Visit.ensures_modifyNotes, Visit.ensures_pure]
      exact Marks.accounted ⟨rfl, rfl, rfl, rfl, fun _ _ => rfl⟩ sourced fun _ => .inl rfl
  | ret info value =>
    match seen with
    | [] | _ :: _ :: _ => exact clean
    | [v] =>
      show Visit.Ensures (Visit.recordReturn info.id v.value >>= fun _ => pure v.value) m _
      rw [Visit.ensures_bind, Visit.ensures_recordReturn, Visit.ensures_pure]
      exact Marks.accounted ⟨rfl, rfl, rfl, rfl, fun _ _ => rfl⟩ sourced fun _ => .inl rfl

end TaintAnalysis

end Analysis

end Dataflow
