import Dataflow.Proofs.Settling.Names
import Dataflow.Proofs.State.Writes
import Dataflow.Proofs.Variables.Boundary

/-!
# Bounds of what a body can name

Points-to values and the entities of fields and elements are nested in each other, so a body
could in principle name more and more storage. It does not as long as each entity takes
finitely many values only: then references have finitely many owners and positions, and with these finitely
many names. This module tells what that means for an analysis, hook by hook.

## The notions

* `Bounds`: what entities may hold, what operations may yield, and which entities may be named.
* `Scope`: how many values an analysis can do with (`Scope.Small`), and which entities its values mention.
* `Scope.Fits`: a state keeps to bounds, and mentions only entities of a set. The set is that of all entities
  of a whole run, and it may be far larger than what one block names.
* `Scope.Keeps`: a visit that starts within bounds succeeds and ends within bounds, which may be wider, but
  are small again. They depend on the bounds at the start only, not on the state.
* `Scope.Sound`: what all hooks of an analysis owe. What a call owes follows from what the writes of the
  escaped value owe (`keeps_callOpaquely`).
-/

namespace Dataflow

variable {V ι α : Type}

/-- What entities may hold, what operations may yield, and which entities may be named. -/
structure Bounds (V : Type) where
  /-- The values of each entity. -/
  values : Entity → Set V
  /-- The values of operations. -/
  results : Set V
  /-- The entities that are named. -/
  names : Set Entity

namespace Bounds

variable {B B' B'' : Bounds V}

/-- The second bounds allow whatever the first ones do. -/
structure Within (B B' : Bounds V) : Prop where
  /-- What entities may hold. -/
  values : ∀ e, B.values e ⊆ B'.values e
  /-- What operations may yield. -/
  results : B.results ⊆ B'.results
  /-- What may be named. -/
  names : B.names ⊆ B'.names

theorem Within.refl (B : Bounds V) : B.Within B := ⟨fun _ => subset_rfl, subset_rfl, subset_rfl⟩

theorem Within.trans (h : B.Within B') (h' : B'.Within B'') : B.Within B'' :=
  ⟨fun e => (h.values e).trans (h'.values e), h.results.trans h'.results, h.names.trans h'.names⟩

/-- Further entities may be named. -/
def withNames (B : Bounds V) (N : Set Entity) : Bounds V := { B with names := B.names ∪ N }

theorem within_withNames (B : Bounds V) (N : Set Entity) : B.Within (B.withNames N) :=
  ⟨fun _ => subset_rfl, subset_rfl, Set.subset_union_left⟩

/-- Operations may yield further values. -/
def withResults (B : Bounds V) (R : Set V) : Bounds V := { B with results := B.results ∪ R }

theorem within_withResults (B : Bounds V) (R : Set V) : B.Within (B.withResults R) :=
  ⟨fun _ => subset_rfl, Set.subset_union_left, subset_rfl⟩

end Bounds

/-- What matters about the values of an analysis. -/
structure Scope (V : Type) where
  /-- Whether some values are few. -/
  few : Set V → Prop
  /-- The entities that a value mentions. -/
  mentions : V → Set Entity

namespace Scope

variable {S : Scope V} {D : Domain V} {B B' : Bounds V} {X : Set Entity} {s : State V} {v : V}

/-- Entities and operations have few values, and few entities are named. -/
structure Small (S : Scope V) (B : Bounds V) : Prop where
  /-- The values of each entity. -/
  values : ∀ e, S.few (B.values e)
  /-- The values of operations. -/
  results : S.few B.results
  /-- The entities that are named. -/
  names : B.names.Finite

/-- A state that mentions only some entities. -/
def Covered (S : Scope V) (X : Set Entity) (s : State V) : Prop :=
  ∀ e v, s.find? e = some v → e ∈ X ∧ S.mentions v ⊆ X

/-- A state that keeps to bounds and mentions only some entities. -/
structure Fits (S : Scope V) (D : Domain V) (B : Bounds V) (X : Set Entity) (s : State V) : Prop where
  /-- The values of entities. -/
  values : ∀ e, State.valueOr D s e ∈ B.values e
  /-- The entities that are mentioned. -/
  covered : S.Covered X s

/-- A value that an operation may yield and that mentions only some entities. -/
def Says (S : Scope V) (B : Bounds V) (X : Set Entity) (v : V) : Prop := v ∈ B.results ∧ S.mentions v ⊆ X

theorem Fits.mono (h : S.Fits D B X s) (w : B.Within B') : S.Fits D B' X s :=
  ⟨fun e => w.values e (h.values e), h.covered⟩

theorem Says.mono (h : S.Says B X v) (w : B.Within B') : S.Says B' X v := ⟨w.results h.1, h.2⟩

theorem Small.withNames (h : S.Small B) {N : Set Entity} (hN : N.Finite) : S.Small (B.withNames N) :=
  ⟨h.values, h.results, h.names.union hN⟩

/-- Tracked entities are among those that the state may mention. -/
theorem Covered.mem_of_mem_entities (h : S.Covered X s) {e : Entity} (he : e ∈ s.entities) : e ∈ X := by
  obtain ⟨v, hv⟩ := Option.isSome_iff_exists.1 (FinMap.mem_keys.1 (FinSet.mem_toList.1 he))
  exact (h e v hv).1

theorem Covered.insert (h : S.Covered X s) {e : Entity} (he : e ∈ X) (hv : S.mentions v ⊆ X) :
    S.Covered X (s.insert e v) := by
  intro a w hw
  by_cases hae : a = e
  · subst hae
    rw [FinMap.find?_insert_self, Option.some.injEq] at hw
    exact ⟨he, hw ▸ hv⟩
  · exact h a w ((FinMap.find?_insert_ne s v hae).symm.trans hw)

theorem Covered.erase (h : S.Covered X s) (e : Entity) : S.Covered X (s.erase e) := by
  intro a w hw
  rw [FinMap.find?_erase] at hw
  split at hw
  · cases hw
  · exact h a w hw

/-- Some visits that start within bounds succeed and end within bounds that are small again. Each takes
an argument of a kind. They name storage and work on the ledger nowhere. -/
def Keeps (S : Scope V) (D : Domain V) (admits : Bounds V → Set Entity → ι → Prop) (x : ι → Visit V α)
    (tells : Bounds V → Set Entity → α → Prop) : Prop :=
  ∀ B, S.Small B → ∃ B', S.Small B' ∧ B.Within B' ∧ ∀ X, B'.names ⊆ X → ∀ i m, admits B X i →
    S.Fits D B X m.state → m.ledger.cancelled = false →
      Visit.Yields (x i) m fun a m' =>
        m.SameNotes m' ∧ m'.ledger = m.ledger ∧ S.Fits D B' X m'.state ∧ tells B' X a

/-- An entity that may be named, if it is one. -/
def Names (_ : Scope V) (B : Bounds V) (_ : Set Entity) (e : Option Entity) : Prop := ∀ x, e = some x → x ∈ B.names

/-- Writes of the escaped value keep to bounds however often they happen, and to whichever of the entities
that the state may mention. -/
def Escapes (S : Scope V) (A : Analysis V) : Prop :=
  ∀ B, S.Small B → ∃ B', S.Small B' ∧ B.Within B' ∧ B'.names = B.names ∧ ∀ X, ∀ e ∈ X, ∀ s,
    S.Fits A.domain B' X s → ∃ s', A.write e (A.escapedValue e) s = .ok s' ∧ S.Fits A.domain B' X s'

/-- What all hooks of an analysis owe, and what merging and widening owe. -/
structure Sound [DecidableEq V] (S : Scope V) (A : Analysis V) (ctx : Context V) (usual : Call V → Visit V V) :
    Prop where
  /-- Finitely many values are few. -/
  few_of_finite : ∀ T : Set V, T.Finite → S.few T
  /-- A value mentions finitely many entities. -/
  mentions_finite : ∀ v, (S.mentions v).Finite
  /-- An entity that a state does not mention has a value that mentions no other one. -/
  mentions_missing : ∀ e, S.mentions (A.domain.missing e) ⊆ {e}
  /-- Merging mentions nothing else. -/
  mentions_merge : ∀ a b, S.mentions (A.domain.merge a b) ⊆ S.mentions a ∪ S.mentions b
  /-- Widening mentions nothing else. -/
  mentions_widen : ∀ a b, S.mentions (State.widenValue A.domain a b) ⊆ S.mentions a ∪ S.mentions b
  /-- No value is widened again and again. -/
  descends : WellFounded fun new old => new ≠ old ∧ ∃ x, new = State.widenValue A.domain old x
  /-- There is an initial state. -/
  initial : ∃ s, A.initialState ctx = .ok s
  /-- Few values point to finitely many places. -/
  location : ∀ op T, S.few T → (A.location ctx op '' T).Finite
  /-- Constants. -/
  literal : ∀ op l, S.Keeps A.domain (fun _ _ _ => True) (fun _ : Unit => pure (A.literal op l)) S.Says
  /-- Reads. -/
  reference : ∀ op, S.Keeps A.domain S.Names (A.reference ctx op) S.Says
  /-- Stores. -/
  assign : ∀ op, S.Keeps A.domain (fun B X i => S.Names B X i.1 ∧ S.Says B X i.2)
    (fun i : Option Entity × V => A.assign ctx op i.1 i.2) S.Says
  /-- New objects. -/
  create : ∀ op, S.Keeps A.domain (fun B X i => ∀ v ∈ i, S.Says B X v) (A.create ctx op) S.Says
  /-- New arrays. -/
  createArray : ∀ op, S.Keeps A.domain (fun _ _ _ => True) (fun _ : Unit => A.createArray ctx op) S.Says
  /-- Binary operators. -/
  binary : ∀ op operator, S.Keeps A.domain (fun B X i => S.Says B X i.1 ∧ S.Says B X i.2)
    (fun i : V × V => A.binary ctx op operator i.1 i.2) S.Says
  /-- Conversions. -/
  convert : ∀ op, S.Keeps A.domain S.Says (A.convert op) S.Says
  /-- Calls. -/
  invoke : S.Keeps A.domain (fun B _ call => ∀ e ∈ Analysis.passedStorage call, e ∈ B.names)
    (A.invoke ctx usual) S.Says
  /-- Returns without a value. -/
  bottom : S.Keeps A.domain (fun _ _ _ => True) (fun _ : Unit => pure A.domain.bottom) S.Says
  /-- Operations that nothing is known about. -/
  unknown : S.Keeps A.domain (fun _ _ _ => True) (fun op => pure (A.unknownValue op)) S.Says
  /-- The ends of scopes. -/
  forget : ∀ e, S.Keeps A.domain (fun _ X _ => e ∈ X) (fun _ : Unit => Visit.update (A.forget e)) fun _ _ _ => True

/-! ### States -/

section States

variable {s' : State V}

theorem mentions_valueOr (missing : ∀ e, S.mentions (D.missing e) ⊆ {e}) (h : S.Covered X s) {e : Entity} (he : e ∈ X) :
    S.mentions (State.valueOr D s e) ⊆ X := by
  cases hs : s.find? e with
  | none =>
    rw [State.valueOr_of_not_mentioned D hs]
    exact (missing e).trans (Set.singleton_subset_iff.2 he)
  | some v =>
    rw [State.valueOr_of_find? D hs]
    exact (h e v hs).2

/-- A state whose values are made from those of two states mentions nothing else. -/
theorem Covered.of_values (missing : ∀ e, S.mentions (D.missing e) ⊆ {e}) {f : V → V → V}
    (combine : ∀ a b, S.mentions (f a b) ⊆ S.mentions a ∪ S.mentions b) {t : State V} (hs : S.Covered X s)
    (ht : S.Covered X t)
    (h : ∀ e, s'.find? e = if (s.find? e).isSome ∨ (t.find? e).isSome then
      some (f (State.valueOr D s e) (State.valueOr D t e)) else none) : S.Covered X s' := by
  intro e v hv
  rw [h e] at hv
  split at hv
  · rename_i hmention
    have he : e ∈ X := by
      rcases hmention with hm | hm
      · obtain ⟨w, hw⟩ := Option.isSome_iff_exists.1 hm
        exact (hs e w hw).1
      · obtain ⟨w, hw⟩ := Option.isSome_iff_exists.1 hm
        exact (ht e w hw).1
    rw [← Option.some.inj hv]
    exact ⟨he, (combine _ _).trans
      (Set.union_subset (mentions_valueOr missing hs he) (mentions_valueOr missing ht he))⟩
  · cases hv

/-- A gain of a value mentions nothing else. -/
theorem Covered.gain (missing : ∀ e, S.mentions (D.missing e) ⊆ {e})
    (merge : ∀ a b, S.mentions (D.merge a b) ⊆ S.mentions a ∪ S.mentions b) (h : S.Covered X s) {e : Entity}
    (he : e ∈ X) (hv : S.mentions v ⊆ X) : S.Covered X (State.gain D v s e) :=
  h.insert he ((merge _ _).trans (Set.union_subset (mentions_valueOr missing h he) hv))

/-- A write mentions nothing but the entity and the value besides. -/
theorem Covered.write (missing : ∀ e, S.mentions (D.missing e) ⊆ {e})
    (merge : ∀ a b, S.mentions (D.merge a b) ⊆ S.mentions a ∪ S.mentions b) (h : S.Covered X s) {e : Entity}
    (he : e ∈ X) (hv : S.mentions v ⊆ X) : S.Covered X (State.write D e v s) := by
  have aliases : S.Covered X (State.gainAll D v (State.aliases e s) s) := by
    have hl : ∀ a ∈ State.aliases e s, a ∈ X := fun a ha =>
      h.mem_of_mem_entities (List.mem_of_mem_filter ha)
    generalize State.aliases e s = l at hl
    unfold State.gainAll
    induction l generalizing s with
    | nil => exact h
    | cons a l ih =>
      rw [List.foldl_cons]
      exact ih (h.gain missing merge (hl a List.mem_cons_self) hv) fun b hb => hl b (List.mem_cons_of_mem _ hb)
  unfold State.write
  dsimp only
  split
  · exact aliases.gain missing merge he hv
  · exact aliases.insert he hv

end States

namespace Sound

variable [DecidableEq V] {A : Analysis V} {ctx : Context V} {usual : Call V → Visit V V} {t : State V}

theorem covered_merge (H : S.Sound A ctx usual) (hs : S.Covered X s) (ht : S.Covered X t) :
    S.Covered X (State.merge A.domain s t) :=
  hs.of_values H.mentions_missing H.mentions_merge ht (State.find?_merge A.domain s t)

theorem covered_widen (H : S.Sound A ctx usual) (hs : S.Covered X s) (ht : S.Covered X t) :
    S.Covered X (State.widen A.domain s t) :=
  hs.of_values H.mentions_missing H.mentions_widen ht (State.find?_widen A.domain s t)

/-- A state mentions finitely many entities. -/
theorem finite_cover (H : S.Sound A ctx usual) (s : State V) :
    ∃ Y : Set Entity, Y.Finite ∧ ∀ X, Y ⊆ X → S.Covered X s := by
  refine ⟨⋃ i ∈ s.entries.toFinset, insert i.1 (S.mentions i.2), ?_, fun X hX e v hv => ?_⟩
  · exact s.entries.toFinset.finite_toSet.biUnion fun i _ => (H.mentions_finite i.2).insert i.1
  · have hsub : insert e (S.mentions v) ⊆ X :=
      (Set.subset_biUnion_of_mem (u := fun i : Entity × V => insert i.1 (S.mentions i.2))
        (List.mem_toFinset.2 (FinMap.mem_entries.2 hv))).trans hX
    exact ⟨hsub (Set.mem_insert _ _), (Set.subset_insert _ _).trans hsub⟩

end Sound

/-! ### Calls -/

section Calls

variable {A : Analysis V}

/-- Letting some entities escape keeps to bounds that escaping keeps to. -/
theorem yields_escapeAll (h : ∀ e ∈ X, ∀ s, S.Fits A.domain B X s →
      ∃ s', A.write e (A.escapedValue e) s = .ok s' ∧ S.Fits A.domain B X s')
    {l : List Entity} (hl : ∀ e ∈ l, e ∈ X) {m : Machine V} (hm : S.Fits A.domain B X m.state) :
    Visit.Yields (A.escapeAll l) m fun _ m' => m.SameNotes m' ∧ m'.ledger = m.ledger ∧ S.Fits A.domain B X m'.state := by
  unfold Analysis.escapeAll Analysis.storeAll
  refine Visit.yields_forM (P := fun m' => m.SameNotes m' ∧ m'.ledger = m.ledger ∧ S.Fits A.domain B X m'.state) ?_
    ⟨.refl m, rfl, hm⟩
  rintro ⟨e, v⟩ hmem m' ⟨hnotes, hledger, hfits⟩
  obtain ⟨a, ha, heq⟩ := List.mem_map.1 hmem
  obtain ⟨rfl, rfl⟩ := Prod.mk.inj heq
  obtain ⟨s', hs', hfits'⟩ := h a (hl a ha) m'.state hfits
  simp only [Analysis.store, Visit.yields_update]
  exact ⟨s', hs', hnotes.trans ⟨rfl, rfl, rfl, rfl⟩, hledger, hfits'⟩

/-- A call that is not followed keeps to bounds: what it may write to is passed to it by reference, or
mentioned already. -/
theorem keeps_callOpaquely (escapes : S.Escapes A)
    (unknown : S.Keeps A.domain (fun _ _ _ => True) (fun op => pure (A.unknownValue op)) S.Says) (config : Config) :
    S.Keeps A.domain (fun B _ call => ∀ e ∈ Analysis.passedStorage call, e ∈ B.names) (A.callOpaquely config)
      S.Says := by
  intro B hB
  obtain ⟨B₁, small₁, within₁, hnames, hescape⟩ := escapes B hB
  obtain ⟨B₂, small₂, within₂, hunknown⟩ := unknown B₁ small₁
  refine ⟨B₂, small₂, within₁.trans within₂, fun X hX call m hpassed hfits hrunning => ?_⟩
  have hpassed' : ∀ e ∈ Analysis.passedStorage call, e ∈ X := fun e he =>
    hX (within₂.names (within₁.names (hpassed e he)))
  unfold Analysis.callOpaquely
  rw [Visit.yields_bind]
  refine (yields_escapeAll (hescape X) hpassed' (hfits.mono within₁)).mono fun _ m₁ after => ?_
  obtain ⟨hnotes₁, hledger₁, hfits₁⟩ := after
  unfold Analysis.escapeReachable
  rw [Visit.yields_bind, Visit.yields_bind, Visit.yields_state]
  have hreached : ∀ e ∈ A.escaped config call m₁.state, e ∈ X := fun e he =>
    hfits₁.covered.mem_of_mem_entities (List.mem_of_mem_filter (Analysis.mem_of_mem_closure he))
  refine (yields_escapeAll (hescape X) hreached hfits₁).mono fun _ m₂ after => ?_
  obtain ⟨hnotes₂, hledger₂, hfits₂⟩ := after
  have hledger := hledger₂.trans hledger₁
  refine (hunknown X hX call.operation m₂ trivial hfits₂ (by rw [hledger]; exact hrunning)).mono
    fun v m₃ after => ?_
  obtain ⟨hnotes₃, hledger₃, hfits₃, hsaid⟩ := after
  exact ⟨(hnotes₁.trans hnotes₂).trans hnotes₃, hledger₃.trans hledger, hfits₃, hsaid⟩

end Calls

/-- The usual handling of calls when none is followed. -/
theorem keeps_usual [DecidableEq V] {A : Analysis V} {ctx : Context V} {usual : Call V → Visit V V}
    (handling : ctx.config.calls.handling = .none) (husual : Analysis.IsUsual A ctx usual) (escapes : S.Escapes A)
    (unknown : S.Keeps A.domain (fun _ _ _ => True) (fun op => pure (A.unknownValue op)) S.Says) :
    S.Keeps A.domain (fun B _ call => ∀ e ∈ Analysis.passedStorage call, e ∈ B.names) usual S.Says := by
  rw [handleCall_eq_callOpaquely handling husual]
  exact keeps_callOpaquely escapes unknown ctx.config

/-! ### Initial states -/

/-- There is an initial state if parameters and the receiver have values. -/
theorem exists_initialState {A : Analysis V} {ctx : Context V}
    (h : ∀ e ∈ Analysis.initialEntities ctx, ∃ v, A.parameterValue e = .ok v) : ∃ s, A.initialState ctx = .ok s := by
  unfold Analysis.initialState
  split
  · exact ⟨_, rfl⟩
  · unfold Analysis.defaultEntry
    generalize State.empty = s
    generalize Analysis.initialEntities ctx = l at h
    induction l generalizing s with
    | nil => exact ⟨s, rfl⟩
    | cons e l ih =>
      obtain ⟨v, hv⟩ := h e List.mem_cons_self
      rw [List.foldlM_cons, hv]
      exact ih (s.insert e v) fun a ha => h a (List.mem_cons_of_mem _ ha)

/-! ### Analyses that can do with any number of values -/

section Covered

variable (few : ∀ T, S.few T) {admits : Bounds V → Set Entity → ι → Prop}
include few

/-- If all sets of values are few, bounds come down to names. -/
theorem Keeps.of_covered {x : ι → Visit V α} {tells : Bounds V → Set Entity → α → Prop} {N : Set Entity} (hN : N.Finite)
    (h : ∀ B X i m, B.names ⊆ X → N ⊆ X → admits B X i → S.Covered X m.state → m.ledger.cancelled = false →
      Visit.Yields (x i) m fun a m' => m.SameNotes m' ∧ m'.ledger = m.ledger ∧ S.Covered X m'.state ∧
        ∀ M, tells ⟨fun _ => Set.univ, Set.univ, M⟩ X a) : S.Keeps D admits x tells := by
  intro B hB
  refine ⟨⟨fun _ => Set.univ, Set.univ, B.names ∪ N⟩, ⟨fun _ => few _, few _, hB.names.union hN⟩,
    ⟨fun _ => Set.subset_univ _, Set.subset_univ _, Set.subset_union_left⟩, fun X hX i m hi hm hrunning => ?_⟩
  refine (h B X i m (Set.subset_union_left.trans hX) (Set.subset_union_right.trans hX) hi hm.covered hrunning).mono
    fun a m' after => ?_
  obtain ⟨hnotes, hledger, hcovered, hsaid⟩ := after
  exact ⟨hnotes, hledger, ⟨fun _ => Set.mem_univ _, hcovered⟩, hsaid _⟩

/-- Values that are computed without an effect. -/
theorem Keeps.of_pure {f : ι → V} (h : ∀ B X i, admits B X i → S.mentions (f i) ⊆ X) :
    S.Keeps D admits (fun i => pure (f i)) S.Says := by
  refine Keeps.of_covered few Set.finite_empty fun B X i m _ _ hi hm _ => ?_
  rw [Visit.yields_pure]
  exact ⟨.refl m, rfl, hm, fun _ => ⟨Set.mem_univ _, h B X i hi⟩⟩

/-- Reads of the state. -/
theorem Keeps.of_read (missing : ∀ e, S.mentions (D.missing e) ⊆ {e}) {u : V} (hu : S.mentions u = ∅) :
    S.Keeps D S.Names (fun e : Option Entity => match e with
      | some e => do return State.valueOr D (← Visit.state) e
      | none => return u) S.Says := by
  refine Keeps.of_covered few Set.finite_empty fun B X e m hB _ he hm _ => ?_
  cases e with
  | none =>
    rw [Visit.yields_pure]
    exact ⟨.refl m, rfl, hm, fun _ => ⟨Set.mem_univ _, by simp [hu]⟩⟩
  | some e =>
    rw [Visit.yields_bind, Visit.yields_state, Visit.yields_pure]
    exact ⟨.refl m, rfl, hm, fun _ => ⟨Set.mem_univ _, mentions_valueOr missing hm (hB (he e rfl))⟩⟩

/-- Changes of the state. -/
theorem Keeps.of_update {f : ι → State V → Checked (State V)}
    (h : ∀ B X i s, B.names ⊆ X → admits B X i → S.Covered X s → ∃ s', f i s = .ok s' ∧ S.Covered X s') :
    S.Keeps D admits (fun i => Visit.update (f i)) fun _ _ _ => True := by
  refine Keeps.of_covered few Set.finite_empty fun B X i m hB _ hi hm _ => ?_
  obtain ⟨s', hs', hcovered⟩ := h B X i m.state hB hi hm
  rw [Visit.yields_update]
  exact ⟨s', hs', ⟨rfl, rfl, rfl, rfl⟩, rfl, hcovered, fun _ => trivial⟩

/-- Writes of the escaped value. -/
theorem escapes_of_covered {A : Analysis V} (h : ∀ X, ∀ e ∈ X, ∀ s, S.Covered X s →
      ∃ s', A.write e (A.escapedValue e) s = .ok s' ∧ S.Covered X s') : S.Escapes A := by
  intro B hB
  refine ⟨⟨fun _ => Set.univ, Set.univ, B.names⟩, ⟨fun _ => few _, few _, hB.names⟩,
    ⟨fun _ => Set.subset_univ _, Set.subset_univ _, subset_rfl⟩, rfl, fun X e he s hs => ?_⟩
  obtain ⟨s', hs', hcovered⟩ := h X e he s hs.covered
  exact ⟨s', hs', fun _ => Set.mem_univ _, hcovered⟩

end Covered

/-- The scope of an analysis that can do with any number of values, and whose values mention no entities. -/
def loose (V : Type) : Scope V := ⟨fun _ => True, fun _ => ∅⟩

theorem loose_few (T : Set V) : (loose V).few T := trivial

end Scope

end Dataflow
