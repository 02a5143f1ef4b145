import Dataflow.Proofs.Settling.Bounds
import Mathlib.Data.Finite.Prod

/-!
# Visits keep to bounds

If the hooks of an analysis keep to bounds, so does its visit of an operation of any shape and depth. Such a visit
always succeeds.

## What is proved

`visit_walks`, by induction over operands. Bounds grow with every operand; a reference is named after
its operands were visited, when there are finitely many owners and positions that it can be resolved with
(`reference_walks`). Statements that capture locations come on top (`visit_treads`), and `visitAll_treads` adds up
the statements of a block.
-/

namespace Dataflow

variable {V α : Type}

/-- What holds when an operation was visited. -/
structure Walked (S : Scope V) (A : Analysis V) (ctx : Context V) (known free : Set CaptureId)
    (start : FinMap CaptureId Entity) (B : Bounds V) (X : Set Entity) (op : Operation) (v : V) (m : Machine V) :
    Prop where
  /-- Storage has the names of the body. -/
  bound : Bound ctx known free start B.names m
  /-- The state keeps to the bounds. -/
  fits : S.Fits A.domain B X m.state
  /-- So does the value. -/
  value : S.Says B X v
  /-- So does the entity that is noted. -/
  noted : ∀ e, m.notes.entities.find? op.id = some e → e ∈ B.names

/-- Visits of an operation keep to bounds. -/
def Walks (S : Scope V) (A : Analysis V) (ctx : Context V) (usual : Call V → Visit V V) (known free : Set CaptureId)
    (op : Operation) : Prop :=
  ∀ B, S.Small B → ∃ B', S.Small B' ∧ B.Within B' ∧ ∀ X, B'.names ⊆ X → ∀ start m,
    Bound ctx known free start B.names m → S.Fits A.domain B X m.state →
      Visit.Yields (A.visit ctx usual op) m (Walked S A ctx known free start B' X op)

/-- A part of a visit keeps to bounds, and tells something about its result. -/
def Treads (S : Scope V) (A : Analysis V) (ctx : Context V) (known free : Set CaptureId) (x : Visit V α)
    (tells : Bounds V → Set Entity → α → Prop) : Prop :=
  ∀ B, S.Small B → ∃ B', S.Small B' ∧ B.Within B' ∧ ∀ X, B'.names ⊆ X → ∀ start m,
    Bound ctx known free start B.names m → S.Fits A.domain B X m.state →
      Visit.Yields x m fun a m' => Bound ctx known free start B'.names m' ∧ S.Fits A.domain B' X m'.state ∧ tells B' X a

section Walk

variable {S : Scope V} {A : Analysis V} {ctx : Context V} {usual : Call V → Visit V V} {B B' : Bounds V}
variable {known free : Set CaptureId} {start : FinMap CaptureId Entity} {N N' : Set Entity}
variable {X : Set Entity} {op : Operation} {v : V} {m m' : Machine V}

/-- A hook leaves names as they are. -/
theorem Bound.of_sameNotes (h : Bound ctx known free start N m) (notes : m.SameNotes m') (ledger : m'.ledger = m.ledger)
    (hN : N ⊆ N') : Bound ctx known free start N' m' :=
  (h.congr notes.resolver notes.entities ledger).mono hN

/-- An operation that names no storage, after its hook and with its value noted. -/
theorem walked_of_unnamed (mem : op ∈ Operation.subtrees ctx.graph.operations) (names : op.namesStorage = false)
    (bound : Bound ctx known free start B.names m) (fits : S.Fits A.domain B X m.state) (value : S.Says B X v) :
    Walked S A ctx known free start B X op v { m with notes := { m.notes with values := m.notes.values.insert op.id v } } := by
  refine ⟨bound.congr rfl rfl rfl, fits, value, fun e he => ?_⟩
  rw [show m.notes.entities.find? op.id = none from bound.noted op mem names] at he
  cases he

/-- The same, by what the hook keeps to. -/
theorem walked_of_hook {x : Visit V V} (mem : op ∈ Operation.subtrees ctx.graph.operations)
    (names : op.namesStorage = false) (bound : Bound ctx known free start B.names m) (within : B.Within B')
    (hook : Visit.Yields x m fun v m' =>
      m.SameNotes m' ∧ m'.ledger = m.ledger ∧ S.Fits A.domain B' X m'.state ∧ S.Says B' X v) :
    Visit.Yields x m fun v m' =>
      Walked S A ctx known free start B' X op v { m' with notes := { m'.notes with values := m'.notes.values.insert op.id v } } := by
  refine hook.mono fun v m' after => ?_
  obtain ⟨notes, ledger, fits, said⟩ := after
  exact walked_of_unnamed mem names (bound.of_sameNotes notes ledger within.names) fits said

/-- The same of a value that is computed without an effect. -/
theorem walked_of_value (mem : op ∈ Operation.subtrees ctx.graph.operations) (names : op.namesStorage = false)
    (bound : Bound ctx known free start B.names m) (within : B.Within B')
    (hook : Visit.Yields (pure v) m fun v m' =>
      m.SameNotes m' ∧ m'.ledger = m.ledger ∧ S.Fits A.domain B' X m'.state ∧ S.Says B' X v) :
    Walked S A ctx known free start B' X op v { m with notes := { m.notes with values := m.notes.values.insert op.id v } } := by
  have walked := walked_of_hook mem names bound within hook
  rw [Visit.yields_pure] at walked
  exact walked

/-! ### References -/

/-- A reference is named and read: the bounds take in the names that it has with any of finitely many owners
and positions. -/
theorem reference_walks [DecidableEq V] (H : S.Sound A ctx usual) (distinct : ctx.graph.DistinctIds)
    (mem : op ∈ Operation.subtrees ctx.graph.operations) (names : op.namesStorage = true)
    (unlocated : op.located? = none) (used : ∀ c, op.temporary? = some c → c ∈ known) (hB : S.Small B)
    {L : Set (Option PointsTo × List ElementIndex)} (hL : L.Finite) :
    ∃ B', S.Small B' ∧ B.Within B' ∧ ∀ X, B'.names ⊆ X → ∀ owner indices, (owner, indices) ∈ L → ∀ start m,
      Bound ctx known free start B.names m → S.Fits A.domain B X m.state →
        Visit.Yields (Visit.resolve op owner indices) m fun e m₁ =>
          Visit.Yields (A.reference ctx op e) m₁ fun v m₂ =>
            Walked S A ctx known free start B' X op v { m₂ with notes := { m₂.notes with values := m₂.notes.values.insert op.id v } } := by
  obtain ⟨B', small, within, hread⟩ := H.reference op _ (hB.withNames (ctx.namesAt_finite op hL))
  have within' := (B.within_withNames _).trans within
  refine ⟨B', small, within', fun X hX owner indices hmem start m bound fits => ?_⟩
  refine Visit.yields_resolve bound distinct mem names unlocated used fun e m₁ hstate bound₁ hnoted hname => ?_
  have he : ∀ x, e = some x → x ∈ (B.withNames (ctx.namesAt op L)).names := fun x hx =>
    (hname x hx).imp id fun h => ⟨_, hmem, h⟩
  have fits₁ : S.Fits A.domain (B.withNames (ctx.namesAt op L)) X m₁.state :=
    hstate ▸ fits.mono (B.within_withNames _)
  refine (hread X hX e m₁ he fits₁ bound₁.running).mono fun v m₂ after => ?_
  obtain ⟨hnotes, hledger, fits₂, hsaid⟩ := after
  have noted : m₂.notes.entities.find? op.id = e := by
    rw [hnotes.entities]
    exact hnoted
  refine ⟨(bound₁.of_sameNotes hnotes hledger within'.names).congr rfl rfl rfl, fits₂, hsaid, fun x hx => ?_⟩
  exact within.names (he x (noted.symm.trans hx))

/-! ### Operands in a row -/

/-- The positions that an operation can name. -/
def positions (B : Bounds V) (op : Operation) : Set ElementIndex :=
  insert (.operation op.id) (ElementIndex.entity '' B.names) ∪ {i | ∃ c, op.literal? = some (.integer c) ∧ i = .constant c}

theorem positions_finite (hB : B.names.Finite) (op : Operation) : (positions B op).Finite := by
  refine ((hB.image _).insert _).union (Set.Subsingleton.finite ?_)
  rintro i ⟨c, hc, rfl⟩ j ⟨d, hd, rfl⟩
  rw [hc] at hd
  cases hd
  rfl

theorem yields_elementIndex (h : Walked S A ctx known free start B X op v m) {Q : ElementIndex → Machine V → Prop}
    (hQ : ∀ i ∈ positions B op, Q i m) : Visit.Yields (Analysis.elementIndex op) m Q := by
  unfold Analysis.elementIndex
  split
  · rename_i c hc
    rw [Visit.yields_pure]
    exact hQ _ (.inr ⟨c, hc, rfl⟩)
  · rw [Visit.yields_bind, Visit.yields_entityOf]
    split
    · rename_i e he
      rw [Visit.yields_pure]
      exact hQ _ (.inl (.inr ⟨e, h.noted e he, rfl⟩))
    · rw [Visit.yields_pure]
      exact hQ _ (.inl (.inl rfl))

/-- Positions and sizes name finitely many positions. -/
theorem visitPositions_keeps {ops : List Operation} (spec : ∀ o ∈ ops, Walks S A ctx usual known free o) (hB : S.Small B) :
    ∃ B', S.Small B' ∧ B.Within B' ∧ ∃ I : Set (List ElementIndex), I.Finite ∧ ∀ X, B'.names ⊆ X → ∀ start m,
      Bound ctx known free start B.names m → S.Fits A.domain B X m.state →
        Visit.Yields (A.visitPositions ctx usual ops) m fun is m' =>
          Bound ctx known free start B'.names m' ∧ S.Fits A.domain B' X m'.state ∧ is ∈ I := by
  induction ops generalizing B with
  | nil =>
    refine ⟨B, hB, .refl B, {[]}, Set.finite_singleton _, fun X _ start m bound fits => ?_⟩
    rw [Analysis.visitPositions, Visit.yields_pure]
    exact ⟨bound, fits, rfl⟩
  | cons op ops ih =>
    obtain ⟨B₁, small₁, within₁, hop⟩ := spec op List.mem_cons_self B hB
    obtain ⟨B₂, small₂, within₂, I, hI, hops⟩ := ih (fun o ho => spec o (List.mem_cons_of_mem _ ho)) small₁
    refine ⟨B₂, small₂, within₁.trans within₂, Set.image2 List.cons (positions B₁ op) I,
      Set.Finite.image2 _ (positions_finite small₁.names op) hI, fun X hX start m bound fits => ?_⟩
    simp only [Analysis.visitPositions, Visit.yields_bind, Visit.yields_pure]
    refine (hop X (within₂.names.trans hX) start m bound fits).mono fun v m₁ walked => ?_
    refine yields_elementIndex walked fun i hi => ?_
    refine (hops X hX start m₁ walked.bound walked.fits).mono fun is m₂ after => ?_
    obtain ⟨bound₂, fits₂, his⟩ := after
    exact ⟨bound₂, fits₂, Set.mem_image2_of_mem hi his⟩

/-- An operand that keeps to bounds. -/
structure OperandFits (S : Scope V) (B : Bounds V) (X : Set Entity) (a : Operand V) : Prop where
  /-- Its value. -/
  value : S.Says B X a.value
  /-- Its storage. -/
  entity : S.Names B X a.entity

theorem yields_operand (h : Walked S A ctx known free start B X op v m) {parameter : Option Symbol} {refKind : RefKind}
    {Q : Operand V → Machine V → Prop} (hQ : ∀ a, OperandFits S B X a → Q a m) :
    Visit.Yields (A.operand ctx op parameter refKind v) m Q := by
  unfold Analysis.operand
  dsimp only
  split
  · simp only [Visit.yields_bind, Visit.yields_entityOf, Visit.yields_pure]
    exact hQ _ ⟨h.value, h.noted⟩
  · simp only [Visit.yields_bind, Visit.yields_pure]
    exact hQ _ ⟨h.value, fun x hx => by cases hx⟩

/-- Arguments keep to bounds. -/
theorem visitArguments_treads {args : List (Argument Operation)} (spec : ∀ a ∈ args, Walks S A ctx usual known free a.value) :
    Treads S A ctx known free (A.visitArguments ctx usual args) fun B X as => ∀ a ∈ as, OperandFits S B X a := by
  intro B hB
  induction args generalizing B with
  | nil =>
    refine ⟨B, hB, .refl B, fun X _ start m bound fits => ?_⟩
    rw [Analysis.visitArguments, Visit.yields_pure]
    exact ⟨bound, fits, fun a ha => by cases ha⟩
  | cons arg args ih =>
    obtain ⟨parameter, op, refKind⟩ := arg
    obtain ⟨B₁, small₁, within₁, hop⟩ := spec _ List.mem_cons_self B hB
    obtain ⟨B₂, small₂, within₂, hargs⟩ := ih (fun a ha => spec a (List.mem_cons_of_mem _ ha)) B₁ small₁
    refine ⟨B₂, small₂, within₁.trans within₂, fun X hX start m bound fits => ?_⟩
    simp only [Analysis.visitArguments, Visit.yields_bind, Visit.yields_pure]
    refine (hop X (within₂.names.trans hX) start m bound fits).mono fun v m₁ walked => ?_
    refine yields_operand walked fun a hfits => ?_
    refine (hargs X hX start m₁ walked.bound walked.fits).mono fun as m₂ after => ?_
    obtain ⟨bound₂, fits₂, has⟩ := after
    refine ⟨bound₂, fits₂, fun b hb => ?_⟩
    rcases List.mem_cons.1 hb with rfl | hb
    · exact ⟨hfits.value.mono within₂, fun x hx => within₂.names (hfits.entity x hx)⟩
    · exact has b hb

/-- The object that a field belongs to is in finitely many places. -/
theorem visitOwner_keeps [DecidableEq V] (H : S.Sound A ctx usual) {owner : Option Operation}
    (spec : ∀ o ∈ owner.toList, Walks S A ctx usual known free o) (hB : S.Small B) :
    ∃ B', S.Small B' ∧ B.Within B' ∧ ∃ L : Set (Option PointsTo), L.Finite ∧ ∀ X, B'.names ⊆ X → ∀ start m,
      Bound ctx known free start B.names m → S.Fits A.domain B X m.state →
        Visit.Yields (A.visitOwner ctx usual owner) m fun l m' =>
          Bound ctx known free start B'.names m' ∧ S.Fits A.domain B' X m'.state ∧ l ∈ L := by
  cases owner with
  | none =>
    refine ⟨B, hB, .refl B, {none}, Set.finite_singleton _, fun X _ start m bound fits => ?_⟩
    rw [Analysis.visitOwner, Visit.yields_pure]
    exact ⟨bound, fits, rfl⟩
  | some op =>
    obtain ⟨B₁, small₁, within₁, hop⟩ := spec op (by simp) B hB
    refine ⟨B₁, small₁, within₁, some '' (A.location ctx op '' B₁.results),
      (H.location op _ small₁.results).image _, fun X hX start m bound fits => ?_⟩
    simp only [Analysis.visitOwner, Visit.yields_bind, Visit.yields_pure]
    refine (hop X hX start m bound fits).mono fun v m₁ walked => ?_
    exact ⟨walked.bound, walked.fits, _, ⟨v, walked.value.1, rfl⟩, rfl⟩

theorem visitReceiver_treads {receiver : Option Operation} (spec : ∀ o ∈ receiver.toList, Walks S A ctx usual known free o) :
    Treads S A ctx known free (A.visitReceiver ctx usual receiver) fun _ _ _ => True := by
  intro B hB
  cases receiver with
  | none =>
    refine ⟨B, hB, .refl B, fun X _ start m bound fits => ?_⟩
    rw [Analysis.visitReceiver, Visit.yields_pure]
    exact ⟨bound, fits, trivial⟩
  | some op =>
    obtain ⟨B₁, small₁, within₁, hop⟩ := spec op (by simp) B hB
    refine ⟨B₁, small₁, within₁, fun X hX start m bound fits => ?_⟩
    simp only [Analysis.visitReceiver, Visit.yields_bind, Visit.yields_pure]
    refine (hop X hX start m bound fits).mono fun v m₁ walked => ?_
    exact yields_operand walked fun _ _ => ⟨walked.bound, walked.fits, trivial⟩

/-! ### All operations -/

section Constructors

-- The equations of the visit are derived once, ahead of the lemmas that rewrite with them.
attribute [local simp] Analysis.visit

variable [DecidableEq V] (H : S.Sound A ctx usual)
include H

/-- References without operands. -/
theorem visit_variable_walks (distinct : ctx.graph.DistinctIds) (mem : op ∈ Operation.subtrees ctx.graph.operations)
    (names : op.namesStorage = true) (unlocated : op.located? = none) (used : ∀ c, op.temporary? = some c → c ∈ known)
    (body : A.visit ctx usual op = do
      let v ← Visit.resolve op none [] >>= A.reference ctx op
      Visit.recordValue op.id v
      return v) : Walks S A ctx usual known free op := by
  intro B hB
  obtain ⟨B', small, within, hread⟩ := reference_walks H distinct mem names unlocated used hB (Set.finite_singleton (none, []))
  refine ⟨B', small, within, fun X hX start m bound fits => ?_⟩
  rw [body]
  simp only [Visit.yields_bind, Visit.yields_recordValue, Visit.yields_pure]
  exact hread X hX none [] rfl start m bound fits

theorem visit_fieldRef_walks (distinct : ctx.graph.DistinctIds) {i : OperationInfo} {owner : Option Operation} {field : Symbol}
    (mem : .fieldRef i owner field ∈ Operation.subtrees ctx.graph.operations)
    (spec : ∀ o ∈ owner.toList, Walks S A ctx usual known free o) : Walks S A ctx usual known free (.fieldRef i owner field) := by
  intro B hB
  obtain ⟨B₁, small₁, within₁, L, hL, howner⟩ := visitOwner_keeps H spec hB
  obtain ⟨B₂, small₂, within₂, hread⟩ := reference_walks H distinct mem rfl rfl (fun _ h => by cases h) small₁ (hL.image fun l => (l, []))
  refine ⟨B₂, small₂, within₁.trans within₂, fun X hX start m bound fits => ?_⟩
  rw [Analysis.visit]
  simp only [Visit.yields_bind, Visit.yields_recordValue, Visit.yields_pure]
  refine (howner X (within₂.names.trans hX) start m bound fits).mono fun l m₁ after => ?_
  obtain ⟨bound₁, fits₁, hl⟩ := after
  exact hread X hX l [] ⟨l, hl, rfl⟩ start m₁ bound₁ fits₁

theorem visit_elementRef_walks (distinct : ctx.graph.DistinctIds) {i : OperationInfo} {array : Operation}
    {indices : List Operation} (mem : .elementRef i array indices ∈ Operation.subtrees ctx.graph.operations)
    (onArray : Walks S A ctx usual known free array) (onIndices : ∀ o ∈ indices, Walks S A ctx usual known free o) :
    Walks S A ctx usual known free (.elementRef i array indices) := by
  intro B hB
  obtain ⟨B₁, small₁, within₁, harray⟩ := onArray B hB
  obtain ⟨B₂, small₂, within₂, I, hI, hindices⟩ := visitPositions_keeps onIndices small₁
  have hL : (Set.image2 (fun v is => (some (A.location ctx array v), is)) B₁.results I).Finite := by
    refine (Set.Finite.image2 (fun l is => (some l, is)) (H.location array _ small₁.results) hI).subset ?_
    rintro _ ⟨v, hv, is, his, rfl⟩
    exact ⟨_, ⟨v, hv, rfl⟩, is, his, rfl⟩
  obtain ⟨B₃, small₃, within₃, hread⟩ := reference_walks H distinct mem rfl rfl (fun _ h => by cases h) small₂ hL
  refine ⟨B₃, small₃, (within₁.trans within₂).trans within₃, fun X hX start m bound fits => ?_⟩
  rw [Analysis.visit]
  simp only [Visit.yields_bind, Visit.yields_recordValue, Visit.yields_pure]
  refine (harray X ((within₂.trans within₃).names.trans hX) start m bound fits).mono fun v m₁ walked => ?_
  refine (hindices X (within₃.names.trans hX) start m₁ walked.bound walked.fits).mono fun is m₂ after => ?_
  obtain ⟨bound₂, fits₂, his⟩ := after
  exact hread X hX _ is ⟨v, walked.value.1, is, his, rfl⟩ start m₂ bound₂ fits₂

theorem visit_literal_walks {i : OperationInfo} {l : Literal}
    (mem : .literal i l ∈ Operation.subtrees ctx.graph.operations) : Walks S A ctx usual known free (.literal i l) := by
  intro B hB
  obtain ⟨B', small, within, hook⟩ := H.literal (.literal i l) l B hB
  refine ⟨B', small, within, fun X hX start m bound fits => ?_⟩
  rw [Analysis.visit]
  simp only [Visit.yields_bind, Visit.yields_recordValue, Visit.yields_pure]
  exact walked_of_value mem rfl bound within (hook X hX () m trivial fits bound.running)

theorem visit_invalid_walks {i : OperationInfo} (mem : .invalid i ∈ Operation.subtrees ctx.graph.operations) :
    Walks S A ctx usual known free (.invalid i) := by
  intro B hB
  obtain ⟨B', small, within, hook⟩ := H.unknown B hB
  refine ⟨B', small, within, fun X hX start m bound fits => ?_⟩
  rw [Analysis.visit]
  simp only [Visit.yields_bind, Visit.yields_recordValue, Visit.yields_pure]
  exact walked_of_value mem rfl bound within (hook X hX _ m trivial fits bound.running)

theorem visit_assignment_walks {i : OperationInfo} {target value : Operation}
    (mem : .assignment i target value ∈ Operation.subtrees ctx.graph.operations) (onTarget : Walks S A ctx usual known free target)
    (onValue : Walks S A ctx usual known free value) : Walks S A ctx usual known free (.assignment i target value) := by
  intro B hB
  obtain ⟨B₁, small₁, within₁, htarget⟩ := onTarget B hB
  obtain ⟨B₂, small₂, within₂, hvalue⟩ := onValue B₁ small₁
  obtain ⟨B₃, small₃, within₃, hook⟩ := H.assign (.assignment i target value) B₂ small₂
  refine ⟨B₃, small₃, (within₁.trans within₂).trans within₃, fun X hX start m bound fits => ?_⟩
  rw [Analysis.visit]
  simp only [Visit.yields_bind, Visit.yields_entityOf, Visit.yields_recordValue, Visit.yields_pure]
  refine (htarget X ((within₂.trans within₃).names.trans hX) start m bound fits).mono fun _ m₁ walked₁ => ?_
  refine (hvalue X (within₃.names.trans hX) start m₁ walked₁.bound walked₁.fits).mono fun v m₂ walked₂ => ?_
  have admits : S.Names B₂ X (m₁.notes.entities.find? target.id) ∧ S.Says B₂ X v :=
    ⟨fun x hx => within₂.names (walked₁.noted x hx), walked₂.value⟩
  exact walked_of_hook mem rfl walked₂.bound within₃ (hook X hX (_, v) m₂ admits walked₂.fits walked₂.bound.running)

theorem visit_creation_walks {i : OperationInfo} {args : List (Argument Operation)}
    (mem : .objectCreation i args ∈ Operation.subtrees ctx.graph.operations)
    (spec : ∀ a ∈ args, Walks S A ctx usual known free a.value) : Walks S A ctx usual known free (.objectCreation i args) := by
  intro B hB
  obtain ⟨B₁, small₁, within₁, hargs⟩ := visitArguments_treads spec B hB
  obtain ⟨B₂, small₂, within₂, hook⟩ := H.create (.objectCreation i args) B₁ small₁
  refine ⟨B₂, small₂, within₁.trans within₂, fun X hX start m bound fits => ?_⟩
  rw [Analysis.visit]
  simp only [Visit.yields_bind, Visit.yields_recordValue, Visit.yields_pure]
  refine (hargs X (within₂.names.trans hX) start m bound fits).mono fun as m₁ after => ?_
  obtain ⟨bound₁, fits₁, has⟩ := after
  have values : ∀ v ∈ as.map (·.value), S.Says B₁ X v := by
    intro v hv
    obtain ⟨a, ha, rfl⟩ := List.mem_map.1 hv
    exact (has a ha).value
  exact walked_of_hook mem rfl bound₁ within₂ (hook X hX _ m₁ values fits₁ bound₁.running)

theorem visit_array_walks {i : OperationInfo} {dims : List Operation}
    (mem : .arrayCreation i dims ∈ Operation.subtrees ctx.graph.operations)
    (spec : ∀ o ∈ dims, Walks S A ctx usual known free o) : Walks S A ctx usual known free (.arrayCreation i dims) := by
  intro B hB
  obtain ⟨B₁, small₁, within₁, I, -, hdims⟩ := visitPositions_keeps spec hB
  obtain ⟨B₂, small₂, within₂, hook⟩ := H.createArray (.arrayCreation i dims) B₁ small₁
  refine ⟨B₂, small₂, within₁.trans within₂, fun X hX start m bound fits => ?_⟩
  rw [Analysis.visit]
  simp only [Visit.yields_bind, Visit.yields_recordValue, Visit.yields_pure]
  refine (hdims X (within₂.names.trans hX) start m bound fits).mono fun _ m₁ after => ?_
  obtain ⟨bound₁, fits₁, -⟩ := after
  exact walked_of_hook mem rfl bound₁ within₂ (hook X hX () m₁ trivial fits₁ bound₁.running)

theorem visit_invocation_walks {i : OperationInfo} {method : Symbol} {receiver : Option Operation}
    {args : List (Argument Operation)} (mem : .invocation i method receiver args ∈ Operation.subtrees ctx.graph.operations)
    (onReceiver : ∀ o ∈ receiver.toList, Walks S A ctx usual known free o) (onArguments : ∀ a ∈ args, Walks S A ctx usual known free a.value) :
    Walks S A ctx usual known free (.invocation i method receiver args) := by
  intro B hB
  obtain ⟨B₁, small₁, within₁, hreceiver⟩ := visitReceiver_treads onReceiver B hB
  obtain ⟨B₂, small₂, within₂, hargs⟩ := visitArguments_treads onArguments B₁ small₁
  obtain ⟨B₃, small₃, within₃, hook⟩ := H.invoke B₂ small₂
  refine ⟨B₃, small₃, (within₁.trans within₂).trans within₃, fun X hX start m bound fits => ?_⟩
  rw [Analysis.visit]
  simp only [Visit.yields_bind, Visit.yields_checkCancelled, Visit.yields_modifyHits, Visit.yields_recordValue,
    Visit.yields_pure]
  refine ⟨bound.running, ?_⟩
  refine (hreceiver X ((within₂.trans within₃).names.trans hX) start m bound fits).mono fun r m₁ after => ?_
  obtain ⟨bound₁, fits₁, -⟩ := after
  refine (hargs X (within₃.names.trans hX) start m₁ bound₁ fits₁).mono fun as m₂ after => ?_
  obtain ⟨bound₂, fits₂, has⟩ := after
  have passed : ∀ e ∈ Analysis.passedStorage (⟨.invocation i method receiver args, method, r, as⟩ : Call V),
      e ∈ B₂.names := by
    intro e he
    obtain ⟨a, ha, hae⟩ := List.mem_filterMap.1 he
    split at hae
    · exact (has a ha).entity e hae
    · cases hae
  have withdrawn : Bound ctx known free start B₂.names { m₂ with notes := { m₂.notes with hits := m₂.notes.hits.withdraw i.id } } :=
    bound₂.congr rfl rfl rfl
  exact walked_of_hook mem rfl withdrawn within₃ (hook X hX _ _ passed fits₂ withdrawn.running)

theorem visit_binary_walks {i : OperationInfo} {operator : BinaryOperator} {left right : Operation}
    (mem : .binary i operator left right ∈ Operation.subtrees ctx.graph.operations) (onLeft : Walks S A ctx usual known free left)
    (onRight : Walks S A ctx usual known free right) : Walks S A ctx usual known free (.binary i operator left right) := by
  intro B hB
  obtain ⟨B₁, small₁, within₁, hleft⟩ := onLeft B hB
  obtain ⟨B₂, small₂, within₂, hright⟩ := onRight B₁ small₁
  obtain ⟨B₃, small₃, within₃, hook⟩ := H.binary (.binary i operator left right) operator B₂ small₂
  refine ⟨B₃, small₃, (within₁.trans within₂).trans within₃, fun X hX start m bound fits => ?_⟩
  rw [Analysis.visit]
  simp only [Visit.yields_bind, Visit.yields_recordValue, Visit.yields_pure]
  refine (hleft X ((within₂.trans within₃).names.trans hX) start m bound fits).mono fun l m₁ walked₁ => ?_
  refine (hright X (within₃.names.trans hX) start m₁ walked₁.bound walked₁.fits).mono fun r m₂ walked₂ => ?_
  have admits : S.Says B₂ X l ∧ S.Says B₂ X r := ⟨walked₁.value.mono within₂, walked₂.value⟩
  exact walked_of_hook mem rfl walked₂.bound within₃ (hook X hX (l, r) m₂ admits walked₂.fits walked₂.bound.running)

theorem visit_conversion_walks {i : OperationInfo} {operand : Operation}
    (mem : .conversion i operand ∈ Operation.subtrees ctx.graph.operations) (spec : Walks S A ctx usual known free operand) :
    Walks S A ctx usual known free (.conversion i operand) := by
  intro B hB
  obtain ⟨B₁, small₁, within₁, hoperand⟩ := spec B hB
  obtain ⟨B₂, small₂, within₂, hook⟩ := H.convert (.conversion i operand) B₁ small₁
  refine ⟨B₂, small₂, within₁.trans within₂, fun X hX start m bound fits => ?_⟩
  rw [Analysis.visit]
  simp only [Visit.yields_bind, Visit.yields_recordValue, Visit.yields_pure]
  refine (hoperand X (within₂.names.trans hX) start m bound fits).mono fun v m₁ walked => ?_
  exact walked_of_hook mem rfl walked.bound within₂ (hook X hX v m₁ walked.value walked.fits walked.bound.running)

theorem visit_ret_walks {i : OperationInfo} {value : Option Operation}
    (mem : .ret i value ∈ Operation.subtrees ctx.graph.operations) (spec : ∀ o ∈ value.toList, Walks S A ctx usual known free o) :
    Walks S A ctx usual known free (.ret i value) := by
  intro B hB
  cases value with
  | none =>
    obtain ⟨B', small, within, hook⟩ := H.bottom B hB
    refine ⟨B', small, within, fun X hX start m bound fits => ?_⟩
    rw [Analysis.visit]
    simp only [Analysis.visitResult, Visit.yields_bind, Visit.yields_recordValue, Visit.yields_pure]
    exact walked_of_value mem rfl bound within (hook X hX () m trivial fits bound.running)
  | some op =>
    obtain ⟨B', small, within, hvalue⟩ := spec op (by simp) B hB
    refine ⟨B', small, within, fun X hX start m bound fits => ?_⟩
    rw [Analysis.visit]
    simp only [Analysis.visitResult, Visit.yields_bind, Visit.yields_recordReturn, Visit.yields_recordValue,
      Visit.yields_pure]
    refine (hvalue X hX start m bound fits).mono fun v m₁ walked => ?_
    have returned : Bound ctx known free start B'.names { m₁ with notes := { m₁.notes with returns := m₁.notes.returns.insert i.id v } } :=
      walked.bound.congr rfl rfl rfl
    exact walked_of_unnamed mem rfl returned walked.fits walked.value

/-- A store into a temporary. -/
theorem visit_capture_walks (distinct : ctx.graph.DistinctIds) {i : OperationInfo} {c : CaptureId} {value : Operation}
    (mem : .capture i c value false ∈ Operation.subtrees ctx.graph.operations) (hc : c ∈ known)
    (spec : Walks S A ctx usual known free value) : Walks S A ctx usual known free (.capture i c value false) := by
  intro B hB
  -- The temporary itself, if it stands for nothing else.
  let N := ctx.namesAt (.capture i c value false) {(none, [])}
  obtain ⟨B₁, small₁, within₁, hvalue⟩ := spec B hB
  obtain ⟨B₂, small₂, within₂, hook⟩ := H.assign (.capture i c value false) (B₁.withNames N)
    (small₁.withNames (ctx.namesAt_finite _ (Set.finite_singleton _)))
  have within := (B₁.within_withNames N).trans within₂
  refine ⟨B₂, small₂, within₁.trans within, fun X hX start m bound fits => ?_⟩
  rw [Analysis.visit]
  simp only [Bool.false_eq_true, if_false, Visit.yields_bind, Visit.yields_recordValue, Visit.yields_pure]
  refine (hvalue X (within.names.trans hX) start m bound fits).mono fun v m₁ walked => ?_
  have used : ∀ d, (Operation.capture i c value false).temporary? = some d → d ∈ known := fun d hd => Option.some.inj hd ▸ hc
  refine Visit.yields_resolve walked.bound distinct mem rfl rfl used fun e m₂ hstate bound₂ hnoted hname => ?_
  have he : ∀ x, e = some x → x ∈ (B₁.withNames N).names := fun x hx => (hname x hx).imp id fun h => ⟨_, rfl, h⟩
  have fits₂ : S.Fits A.domain (B₁.withNames N) X m₂.state := hstate ▸ walked.fits.mono (B₁.within_withNames _)
  refine (hook X hX (e, v) m₂ ⟨he, walked.value.mono (B₁.within_withNames _)⟩ fits₂ bound₂.running).mono
    fun w m₃ after => ?_
  obtain ⟨hnotes, hledger, fits₃, hsaid⟩ := after
  have noted : m₃.notes.entities.find? i.id = e := by
    rw [hnotes.entities]
    exact hnoted
  refine ⟨(bound₂.of_sameNotes hnotes hledger within.names).congr rfl rfl rfl, fits₃, hsaid, fun x hx => ?_⟩
  exact within₂.names (he x (noted.symm.trans hx))

/-- Visits of all operations that capture no location keep to bounds: by induction over operands. -/
theorem visit_walks (distinct : ctx.graph.DistinctIds) (op : Operation)
    (mem : ∀ o ∈ op.subtree, o ∈ Operation.subtrees ctx.graph.operations) (unlocated : ∀ o ∈ op.subtree, o.located? = none)
    (used : ∀ c ∈ op.used, c ∈ known) : Walks S A ctx usual known free op := by
  induction op using Operation.operandInduction with
  | h op ih =>
    have self := mem op (Operation.mem_subtree_self op)
    have uses : ∀ c, op.temporary? = some c → c ∈ known := fun c hc =>
      used c (List.mem_filterMap.2 ⟨op, Operation.mem_subtree_self op, hc⟩)
    have spec : ∀ o ∈ op.operands, Walks S A ctx usual known free o := by
      intro o ho
      have below : ∀ p ∈ o.subtree, p ∈ op.subtree := fun p hp =>
        Operation.mem_subtree_of_mem_operands ho hp
      refine ih o ho (fun p hp => mem p (below p hp)) (fun p hp => unlocated p (below p hp)) fun c hc => ?_
      obtain ⟨p, hp, hpc⟩ := List.mem_filterMap.1 hc
      exact used c (List.mem_filterMap.2 ⟨p, below p hp, hpc⟩)
    cases op with
    | localRef i x => exact visit_variable_walks H distinct self rfl rfl uses (by rw [Analysis.visit]; rfl)
    | parameterRef i x => exact visit_variable_walks H distinct self rfl rfl uses (by rw [Analysis.visit]; rfl)
    | receiverRef i => exact visit_variable_walks H distinct self rfl rfl uses (by rw [Analysis.visit]; rfl)
    | captureRef i c => exact visit_variable_walks H distinct self rfl rfl uses (by rw [Analysis.visit]; rfl)
    | literal i l => exact visit_literal_walks H self
    | invalid i => exact visit_invalid_walks H self
    | fieldRef i owner field => exact visit_fieldRef_walks H distinct self spec
    | elementRef i array indices =>
      exact visit_elementRef_walks H distinct self (spec array List.mem_cons_self)
        fun o ho => spec o (List.mem_cons_of_mem _ ho)
    | assignment i target value =>
      exact visit_assignment_walks H self (spec target (by simp [Operation.operands]))
        (spec value (by simp [Operation.operands]))
    | objectCreation i args =>
      exact visit_creation_walks H self fun a ha => spec a.value (List.mem_map.2 ⟨a, ha, rfl⟩)
    | arrayCreation i dims => exact visit_array_walks H self spec
    | invocation i method receiver args =>
      exact visit_invocation_walks H self (fun o ho => spec o (List.mem_append_left _ ho))
        fun a ha => spec a.value (List.mem_append_right _ (List.mem_map.2 ⟨a, ha, rfl⟩))
    | binary i operator left right =>
      exact visit_binary_walks H self (spec left (by simp [Operation.operands])) (spec right (by simp [Operation.operands]))
    | conversion i operand => exact visit_conversion_walks H self (spec operand (by simp [Operation.operands]))
    | capture i c value byLocation =>
      cases byLocation with
      | false => exact visit_capture_walks H distinct self (uses c rfl) (spec value (by simp [Operation.operands]))
      | true => cases unlocated _ (Operation.mem_subtree_self _)
    | ret i value => exact visit_ret_walks H self spec

end Constructors

/-! ### Blocks -/

/-- A captured location is storage that was named before. -/
theorem visit_captureLocation_treads (distinct : ctx.graph.DistinctIds) {i : OperationInfo} {c : CaptureId} {value : Operation}
    (mem : .capture i c value true ∈ Operation.subtrees ctx.graph.operations) (hc : c ∈ free)
    (spec : Walks S A ctx usual known free value) :
    Treads S A ctx known free (A.visit ctx usual (.capture i c value true)) fun _ _ _ => True := by
  intro B hB
  obtain ⟨B', small, within, hvalue⟩ := spec B hB
  refine ⟨B', small, within, fun X hX start m bound fits => ?_⟩
  rw [Analysis.visit]
  simp only [if_true, Analysis.captureLocationOf, Visit.yields_bind, Visit.yields_entityOf, Visit.yields_recordValue,
    Visit.yields_pure]
  refine (hvalue X hX start m bound fits).mono fun v m₁ walked => ?_
  cases hnoted : m₁.notes.entities.find? value.id with
  | none =>
    rw [Visit.yields_pure]
    exact ⟨walked.bound.congr rfl rfl rfl, walked.fits, trivial⟩
  | some e =>
    simp only [Visit.recordEntity, Visit.bindCapture, Visit.yields_bind, Visit.yields_modifyNotes, Visit.yields_pure]
    have bound₂ := (walked.bound.note distinct mem rfl (some e)).bind hc (walked.noted e hnoted)
    exact ⟨bound₂.congr rfl rfl rfl, walked.fits, trivial⟩

/-- Visits of a statement keep to bounds if what it uses is known, and what it binds is free. -/
theorem visit_treads [DecidableEq V] (H : S.Sound A ctx usual) (distinct : ctx.graph.DistinctIds)
    (mem : ∀ o ∈ op.subtree, o ∈ Operation.subtrees ctx.graph.operations)
    (operands : ∀ o ∈ Operation.subtrees op.operands, o.located? = none) (used : ∀ c ∈ op.used, c ∈ known)
    (located : ∀ c, op.located? = some c → c ∈ free) :
    Treads S A ctx known free (A.visit ctx usual op) fun _ _ _ => True := by
  cases hop : op.located? with
  | none =>
    have unlocated : ∀ o ∈ op.subtree, o.located? = none := by
      intro o ho
      rw [Operation.subtree_eq, List.mem_append, List.mem_singleton] at ho
      rcases ho with ho | rfl
      · exact operands o ho
      · exact hop
    intro B hB
    have walks : Walks S A ctx usual known free op := visit_walks H distinct op mem unlocated used
    obtain ⟨B', small, within, hvisit⟩ := walks B hB
    exact ⟨B', small, within, fun X hX start m bound fits =>
      (hvisit X hX start m bound fits).mono fun _ _ walked => ⟨walked.bound, walked.fits, trivial⟩⟩
  | some c =>
    cases op with
    | capture i d value byLocation =>
      cases byLocation with
      | false => cases hop
      | true =>
        have below : ∀ o ∈ value.subtree, o ∈ (Operation.capture i d value true).subtree := fun o ho =>
          Operation.mem_subtree_of_mem_operands List.mem_cons_self ho
        refine visit_captureLocation_treads distinct (mem _ (Operation.mem_subtree_self _)) (located d rfl)
          (visit_walks H distinct value (fun o ho => mem o (below o ho))
            (fun o ho => operands o (Operation.subtree_subset_of_mem List.mem_cons_self o ho)) fun e he => ?_)
        obtain ⟨o, ho, hoe⟩ := List.mem_filterMap.1 he
        exact used e (List.mem_filterMap.2 ⟨o, below o ho, hoe⟩)
    | _ => cases hop

/-- Parts in a row keep to bounds. -/
theorem Treads.forM {f : α → Visit V PUnit} {l : List α}
    (spec : ∀ a ∈ l, Treads S A ctx known free (f a) fun _ _ _ => True) :
    Treads S A ctx known free (l.forM f) fun _ _ _ => True := by
  intro B hB
  induction l generalizing B with
  | nil =>
    refine ⟨B, hB, .refl B, fun X _ start m bound fits => ?_⟩
    rw [Visit.yields_forM_nil]
    exact ⟨bound, fits, trivial⟩
  | cons a l ih =>
    obtain ⟨B₁, small₁, within₁, first⟩ := spec a List.mem_cons_self B hB
    obtain ⟨B₂, small₂, within₂, rest⟩ := ih (fun b hb => spec b (List.mem_cons_of_mem _ hb)) B₁ small₁
    refine ⟨B₂, small₂, within₁.trans within₂, fun X hX start m bound fits => ?_⟩
    rw [Visit.yields_forM_cons]
    refine (first X (within₂.names.trans hX) start m bound fits).mono fun _ m₁ after => ?_
    obtain ⟨bound₁, fits₁, -⟩ := after
    exact rest X hX start m₁ bound₁ fits₁

/-- Statements in a row keep to bounds. -/
theorem visitAll_treads {ops : List Operation}
    (spec : ∀ o ∈ ops, Treads S A ctx known free (A.visit ctx usual o) fun _ _ _ => True) :
    Treads S A ctx known free (ops.forM fun op => do
      Visit.recordBefore op.id
      let _ ← A.visit ctx usual op) fun _ _ _ => True := by
  refine .forM fun op hop B hB => ?_
  obtain ⟨B', small, within, hvisit⟩ := spec op hop B hB
  refine ⟨B', small, within, fun X hX start m bound fits => ?_⟩
  simp only [Visit.yields_bind, Visit.yields_recordBefore, Visit.yields_pure]
  exact hvisit X hX start _ (bound.congr rfl rfl rfl) fits

/-- The ends of scopes keep to bounds. -/
theorem leaveScope_treads [DecidableEq V] (known free : Set CaptureId) (H : S.Sound A ctx usual) (locals : List Symbol) :
    Treads S A ctx known free (A.leaveScope locals) fun _ _ _ => True := by
  unfold Analysis.leaveScope
  refine .forM fun x _ B hB => ?_
  let e := Entity.localVar x ctx.owner
  obtain ⟨B', small, within', hforget⟩ := H.forget e _ (hB.withNames (Set.finite_singleton e))
  have within := (B.within_withNames _).trans within'
  refine ⟨B', small, within, fun X hX start m bound fits => ?_⟩
  have he : e ∈ X := hX (within'.names (.inr rfl))
  simp only [Visit.yields_bind, Visit.yields_notes]
  rw [show m.notes.resolver.localVar x = e from congrArg (Entity.localVar x) bound.method]
  refine (hforget X hX () m he (fits.mono (B.within_withNames _)) bound.running).mono fun _ m₁ after => ?_
  obtain ⟨hnotes, hledger, fits₁, -⟩ := after
  exact ⟨bound.of_sameNotes hnotes hledger within.names, fits₁, trivial⟩

end Walk

end Dataflow
