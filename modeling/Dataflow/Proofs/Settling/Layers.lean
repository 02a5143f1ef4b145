import Dataflow.Proofs.Settling.Walk
import Mathlib.Data.List.TakeWhile

/-!
# Temporaries in layers

A visit of a block keeps to bounds as long as it is known what the temporaries stand for that it uses. This depends on
earlier visits, of which there may be any number. But if temporaries are ranked (`Graph.Layered`), then what
those of a rank come to stand for is named by visits of statements that use only lower ones.

## What is proved

`runBlock_binds`: a visit of a block lets the temporaries of a rank stand only for what they stood for before, or for
one of finitely many entities. These depend on what lower temporaries may stand for, and on nothing else that the
visit finds. A visit always succeeds (`runBlock_yields`).
-/

namespace Dataflow

variable {V : Type} {S : Scope V} {A : Analysis V} {ctx : Context V} {usual : Call V → Visit V V} {B : Bounds V}
variable {op : Operation} {b : Block} {rank : CaptureId → Nat} {r : Nat} {s : State V} {m : Machine V}

/-- What temporaries stand for other than themselves. -/
def Machine.standing (m : Machine V) : Set Entity := {e | ∃ c, m.notes.resolver.bindings.find? c = some e}

theorem Machine.standing_finite (m : Machine V) : m.standing.Finite := by
  refine ((m.notes.resolver.bindings.entries.toFinset.finite_toSet).image Prod.snd).subset ?_
  rintro e ⟨c, hc⟩
  exact ⟨(c, e), List.mem_toFinset.2 (FinMap.mem_entries.2 hc), rfl⟩

/-- The bounds that one state keeps to. -/
def Bounds.ofState (D : Domain V) (s : State V) (N : Set Entity) : Bounds V := ⟨fun e => {State.valueOr D s e}, ∅, N⟩

/-- All entities may be mentioned. -/
theorem Scope.covered_univ (S : Scope V) (s : State V) : S.Covered Set.univ s := fun _ _ _ => ⟨trivial, Set.subset_univ _⟩

theorem Scope.Sound.small_ofState [DecidableEq V] (H : S.Sound A ctx usual) (D : Domain V) (s : State V) {N : Set Entity}
    (hN : N.Finite) : S.Small (.ofState D s N) :=
  ⟨fun _ => H.few_of_finite _ (Set.finite_singleton _), H.few_of_finite _ Set.finite_empty, hN⟩

/-! ### The statements of a layer -/

/-- The statements of a block up to the first one that uses a temporary that is not below a rank. -/
def lower (rank : CaptureId → Nat) (r : Nat) (ops : List Operation) : List Operation :=
  ops.takeWhile fun op => ∀ d ∈ op.used, rank d < r

/-- The other statements of the block. -/
def higher (rank : CaptureId → Nat) (r : Nat) (ops : List Operation) : List Operation :=
  ops.dropWhile fun op => ∀ d ∈ op.used, rank d < r

theorem used_of_mem_lower {ops : List Operation} (h : op ∈ lower rank r ops) : ∀ d ∈ op.used, rank d < r := by
  simpa using List.mem_takeWhile_imp h

/-- From the first statement on that uses a temporary that is not below a rank, only temporaries above the rank are made to
stand for other storage. -/
theorem lt_of_mem_higher {ops : List Operation} (self : ∀ op ∈ ops, op.Below rank op)
    (before : ops.Pairwise (Operation.Below rank)) (h : op ∈ higher rank r ops) {c : CaptureId}
    (hc : op.located? = some c) : r < rank c := by
  induction ops with
  | nil => cases h
  | cons first ops ih =>
    unfold higher at h
    rw [List.dropWhile_cons] at h
    split at h
    · exact ih (fun o ho => self o (List.mem_cons_of_mem _ ho)) (List.pairwise_cons.1 before).2 h
    · rename_i hfirst
      obtain ⟨d, hd, hle⟩ : ∃ d ∈ first.used, r ≤ rank d := by simpa using hfirst
      refine Nat.lt_of_le_of_lt hle ?_
      rcases List.mem_cons.1 h with rfl | h
      · exact self _ List.mem_cons_self d hd c hc
      · exact (List.pairwise_cons.1 before).1 op h d hd c hc

section Blocks

variable [DecidableEq V] (H : S.Sound A ctx usual) (distinct : ctx.graph.DistinctIds) (layered : ctx.graph.Layered rank)
variable (hb : b ∈ ctx.graph.blocks)
include H distinct layered hb

/-- Statements of a block keep to bounds. -/
theorem visitStatements_treads (known free : Set CaptureId) {ops : List Operation} (hops : ∀ op ∈ ops, op ∈ b.allOperations)
    (used : ∀ op ∈ ops, ∀ c ∈ op.used, c ∈ known) (located : ∀ op ∈ ops, ∀ c, op.located? = some c → c ∈ free) :
    Treads S A ctx known free (ops.forM fun op => do
      Visit.recordBefore op.id
      let _ ← A.visit ctx usual op) fun _ _ _ => True :=
  visitAll_treads fun op hop => visit_treads H distinct
    (fun o ho => Graph.subtrees_allOperations_subset hb o (Operation.subtree_subset_of_mem (hops op hop) o ho))
    (layered.alone b hb op (hops op hop)) (used op hop) (located op hop)

/-- A visit of a block keeps to bounds if it is known what the temporaries stand for that the block uses. -/
theorem runBlock_keeps (known : Set CaptureId) (used : ∀ op ∈ b.allOperations, ∀ c ∈ op.used, c ∈ known) (hB : S.Small B) :
    ∃ B', S.Small B' ∧ ∀ X, B'.names ⊆ X → ∀ s m, Named ctx m →
      (∀ c ∈ known, ∀ e, m.notes.resolver.bindings.find? c = some e → e ∈ B.names) → S.Fits A.domain B X s →
        Visit.Yields (A.runBlock ctx usual b s) m fun out m' => Named ctx m' ∧ S.Covered X out := by
  obtain ⟨B₁, small₁, within₁, hvisit⟩ :=
    visitStatements_treads H distinct layered hb known Set.univ (fun _ h => h) used (fun _ _ _ _ => trivial) B hB
  obtain ⟨B₂, small₂, within₂, hleave⟩ := leaveScope_treads known Set.univ H b.leavingScope B₁ small₁
  refine ⟨B₂, small₂, fun X hX s m named bindings fits => ?_⟩
  unfold Analysis.runBlock
  rw [Visit.yields_bind, Visit.yields_setState, Visit.yields_bind]
  have entered : Bound ctx known Set.univ m.notes.resolver.bindings B.names { m with state := s } :=
    ⟨named.congr rfl rfl rfl, fun _ _ => .inl, bindings⟩
  refine (hvisit X (within₂.names.trans hX) _ _ entered fits).mono fun _ m₁ after => ?_
  obtain ⟨bound₁, fits₁, -⟩ := after
  rw [Visit.yields_bind]
  refine (hleave X hX _ m₁ bound₁ fits₁).mono fun _ m₂ after => ?_
  obtain ⟨bound₂, fits₂, -⟩ := after
  rw [Visit.yields_state]
  exact ⟨bound₂.toNamed, fits₂.covered⟩

/-- A visit of a block succeeds, whatever it finds. -/
theorem runBlock_yields (s : State V) (named : Named ctx m) :
    Visit.Yields (A.runBlock ctx usual b s) m fun _ m' => Named ctx m' := by
  have small := H.small_ofState A.domain s m.standing_finite
  obtain ⟨B', -, run⟩ := runBlock_keeps H distinct layered hb Set.univ (fun _ _ _ _ => trivial) small
  exact (run Set.univ (Set.subset_univ _) s m named (fun c _ e he => ⟨c, he⟩)
    ⟨fun _ => rfl, S.covered_univ s⟩).mono fun _ _ h => h.1

/-- A visit of a block lets the temporaries up to a rank stand for what they stood for before, or for one of
finitely many entities. They are what the statements name that use lower temporaries only. -/
theorem runBlock_binds (r : Nat) (hB : S.Small B) :
    ∃ N : Set Entity, N.Finite ∧ ∀ s m, Named ctx m →
      (∀ c e, rank c < r → m.notes.resolver.bindings.find? c = some e → e ∈ B.names) →
      (∀ e, State.valueOr A.domain s e ∈ B.values e) → Visit.Yields (A.runBlock ctx usual b s) m fun _ m' =>
        ∀ c e, rank c ≤ r → m'.notes.resolver.bindings.find? c = some e →
          m.notes.resolver.bindings.find? c = some e ∨ e ∈ N := by
  obtain ⟨B₁, small₁, -, hlower⟩ := visitStatements_treads H distinct layered hb {c | rank c < r}
    Set.univ (fun _ h => (List.takeWhile_sublist _).subset h) (fun _ h => used_of_mem_lower h)
    (fun _ _ _ _ => trivial) B hB
  refine ⟨B₁.names, small₁.names, fun s m named bindings values => ?_⟩
  unfold Analysis.runBlock
  rw [Visit.yields_bind, Visit.yields_setState, Visit.yields_bind]
  have entered : Bound ctx {c | rank c < r} Set.univ m.notes.resolver.bindings B.names { m with state := s } :=
    ⟨named.congr rfl rfl rfl, fun _ _ => .inl, fun c hc e => bindings c e hc⟩
  rw [show b.allOperations = lower rank r b.allOperations ++ higher rank r b.allOperations from
    List.takeWhile_append_dropWhile.symm, Visit.yields_forM_append]
  refine (hlower Set.univ (Set.subset_univ _) _ _ entered ⟨values, S.covered_univ s⟩).mono fun _ m₁ after => ?_
  obtain ⟨bound₁, -⟩ := after
  -- From here on only temporaries above the rank are made to stand for other storage.
  obtain ⟨B₂, small₂, -, hhigher⟩ := visitStatements_treads H distinct layered hb Set.univ
    {c | r < rank c} (fun _ h => (List.dropWhile_sublist _).subset h) (fun _ _ _ _ => trivial)
    (fun _ h _ => lt_of_mem_higher (layered.self b hb) (layered.before b hb) h)
    _ (H.small_ofState A.domain m₁.state m₁.standing_finite)
  obtain ⟨B₃, -, -, hleave⟩ := leaveScope_treads Set.univ {c | r < rank c} H b.leavingScope B₂ small₂
  have halfway : Bound ctx Set.univ {c | r < rank c} m₁.notes.resolver.bindings m₁.standing m₁ :=
    ⟨bound₁.toNamed, fun _ _ => .inl, fun c _ e he => ⟨c, he⟩⟩
  refine (hhigher Set.univ (Set.subset_univ _) _ m₁ halfway ⟨fun _ => rfl, S.covered_univ _⟩).mono
    fun _ m₂ after => ?_
  obtain ⟨bound₂, fits₂, -⟩ := after
  rw [Visit.yields_bind]
  refine (hleave Set.univ (Set.subset_univ _) _ m₂ bound₂ fits₂).mono fun _ m₃ after => ?_
  obtain ⟨bound₃, -⟩ := after
  rw [Visit.yields_state]
  intro c e hc he
  rcases bound₃.bindings c e he with he | ⟨hlt, -⟩
  · exact (bound₁.bindings c e he).imp id And.right
  · exact absurd hc (Nat.not_le.2 hlt)

end Blocks

end Dataflow
