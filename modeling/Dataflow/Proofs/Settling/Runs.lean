import Dataflow.Proofs.Settling.Layers
import Dataflow.Proofs.Solver.Sweeps
import Mathlib.Order.WellFounded
import Mathlib.Order.Bounds.Basic
import Mathlib.Data.Set.Finite.Lattice
import Mathlib.Order.Interval.Set.Infinite

/-!
# Sweeps come to an end

What a block is visited in may go up and down at first, and the states mention more and more entities
while a body is swept. So no measure of a state goes down with every visit. The argument goes by an
infinite chain of visits instead:

* From some point on every visit of a block widens its state (`eventually_widens`).
* So every entity has one and the same value at the start of a block from some point on, and finitely many
  values at all (`eventually_constant`, `valuesIn_finite`).
* So temporaries stand for finitely many entities, rank by rank (`standing_finite`). This and the values are
  bounds for all visits.
* So visits name finitely many entities, and no state mentions another one (`exists_cover`).
* So the states at the starts of all blocks are the same from some point on, which contradicts the next visit
  (`not_chain`).

## What is proved

A body settles whatever its caller, its configuration and its graph are (`settles`), if the hooks of the analysis
keep to bounds, operation identifiers are distinct and temporaries can be ranked.
-/

namespace Dataflow

/-! ### Sequences that descend -/

/-- A sequence that stays or descends from some point on is constant from some point on. -/
theorem eventually_constant_of_descends {α : Type} {r : α → α → Prop} (wf : WellFounded r) {f : Nat → α} (start : Nat)
    (h : ∀ n, start ≤ n → f (n + 1) = f n ∨ r (f (n + 1)) (f n)) : ∃ N, ∀ n, N ≤ n → f n = f N := by
  obtain ⟨a, ⟨N, hN, rfl⟩, least⟩ := wf.has_min {a | ∃ n, start ≤ n ∧ f n = a} ⟨_, start, Nat.le_refl _, rfl⟩
  refine ⟨N, fun n hn => ?_⟩
  induction n, hn using Nat.le_induction with
  | base => rfl
  | succ n hn ih =>
    rcases h n (hN.trans hn) with e | e
    · exact e.trans ih
    · exact absurd (ih ▸ e) (least _ ⟨n + 1, by omega, rfl⟩)

/-- A sequence that is constant from some point on takes finitely many values. -/
theorem finite_range_of_eventually_constant {α : Type} {f : Nat → α} {N : Nat} (h : ∀ n, N ≤ n → f n = f N) :
    (Set.range f).Finite := by
  refine ((Set.finite_le_nat N).image f).subset ?_
  rintro _ ⟨n, rfl⟩
  rcases Nat.le_total n N with hn | hn
  · exact ⟨n, hn, rfl⟩
  · exact ⟨N, Nat.le_refl N, (h n hn).symm⟩

/-- The value of an entity gets known, or it descends. -/
def Tightens {α : Type} (r : α → α → Prop) : Option α → Option α → Prop
  | some _, none => True
  | some a', some a => r a' a
  | none, _ => False

theorem wellFounded_tightens {α : Type} {r : α → α → Prop} (wf : WellFounded r) : WellFounded (Tightens r) := by
  have acc : ∀ a, Acc (Tightens r) (some a) := by
    intro a
    induction a using wf.induction with
    | h a ih =>
      refine Acc.intro _ fun o ho => ?_
      cases o with
      | none => exact ho.elim
      | some b => exact ih b ho
  refine ⟨fun o => ?_⟩
  cases o with
  | some a => exact acc a
  | none =>
    refine Acc.intro _ fun o ho => ?_
    cases o with
    | none => exact ho.elim
    | some b => exact acc b

variable {V : Type}

namespace Visit

/-- What a visit yields holds of its result. -/
theorem Yields.of_run {α : Type} {x : Visit V α} {m m' : Machine V} {a : α} {Q : α → Machine V → Prop}
    (h : Yields x m Q) (hx : ExceptT.run x m = (.ok a, m')) : Q a m' := by
  obtain ⟨b, m'', hb, hQ⟩ := h
  rw [hx] at hb
  cases hb
  exact hQ

end Visit

namespace Progress

variable [DecidableEq V] {D : Domain V} {g : Graph} {threshold : Nat} {initial s : State V} {p : Progress V} {b : Block}

/-- A block is visited only in a new state. -/
theorem ne_of_nextEntry (h : p.nextEntry D g threshold initial b = some s) : p.entries.find? b.id ≠ some s := by
  intro hs
  unfold nextEntry at h
  rw [hs] at h
  cases hinput : p.inflow D g initial b with
  | none =>
    rw [hinput] at h
    cases h
  | some input =>
    rw [hinput] at h
    dsimp only at h
    split at h
    · cases h
    · rename_i hne
      split at h
      · split at h
        · cases h
        · rename_i hwiden
          exact hwiden (Option.some.inj h).symm
      · exact hne (Option.some.inj h).symm

/-- A block that was visited often is visited in a widened state. -/
theorem widens_of_nextEntry {previous : State V} (h : p.nextEntry D g threshold initial b = some s)
    (hp : p.entries.find? b.id = some previous) (often : threshold ≤ p.visitsOf b.id) :
    ∃ input, s = State.widen D previous input := by
  obtain ⟨input, hinput, hs⟩ := eq_of_nextEntry_eq_some h
  refine ⟨input, ?_⟩
  unfold nextEntry at h
  rw [hinput, hp] at h
  dsimp only at h
  split at h
  · cases h
  · split at h
    · cases h
    · exact (Option.some.inj h).symm

end Progress

namespace Settling

variable [DecidableEq V]

/-- How far a run has come, and what it works on. -/
abbrev Stage (V : Type) := Progress V × Machine V

/-- A visit of a block: there is a new state for it, and what it leaves is put down or was left before. -/
structure Visits (A : Analysis V) (ctx : Context V) (usual : Call V → Visit V V) (initial : State V) (b : Block)
    (s out : State V) (c c' : Stage V) : Prop where
  /-- The block is one of those that are swept. -/
  mem : b ∈ Analysis.sweepOrder ctx.graph
  /-- The new state. -/
  next : c.1.nextEntry A.domain ctx.graph ctx.config.visitsBeforeWidening.toNat initial b = some s
  /-- The visit. -/
  run : ExceptT.run (A.runBlock ctx usual b s) c.2 = (.ok out, c'.2)
  /-- The state is put down. -/
  entries : c'.1.entries = c.1.entries.insert b.id s
  /-- The visit is counted. -/
  visits : c'.1.visits = c.1.visits.insert b.id (c.1.visitsOf b.id + 1)
  /-- What it leaves. -/
  exits : c'.1.exits = c.1.exits ∨ c'.1.exits = c.1.exits.insert b.id out

/-- Storage has its names, and only blocks with a state were visited. -/
structure Sane (ctx : Context V) (c : Stage V) : Prop where
  /-- The names of storage. -/
  named : Named ctx c.2
  /-- The blocks that were visited. -/
  counted : ∀ i, c.1.entries.find? i = none → c.1.visitsOf i = 0

/-- Some block is visited at a sane stage. -/
def Moves (A : Analysis V) (ctx : Context V) (usual : Call V → Visit V V) (initial : State V) (c c' : Stage V) : Prop :=
  Sane ctx c ∧ ∃ b s out, Visits A ctx usual initial b s out c c'

variable {S : Scope V} {A : Analysis V} {ctx : Context V} {usual : Call V → Visit V V} {initial : State V}
variable {f : Nat → Stage V} {rank : CaptureId → Nat}

/-! ### A chain of visits -/

/-- The state at the start of a block. -/
def entryAt (f : Nat → Stage V) (i : BlockId) (n : Nat) : Option (State V) := (f n).1.entries.find? i

/-- The value that an entity is given at the start of a block. -/
def valueAt (f : Nat → Stage V) (i : BlockId) (e : Entity) (n : Nat) : Option V := (entryAt f i n).bind (·.find? e)

omit [DecidableEq V] in
theorem entryAt_of_ne {i : BlockId} {n : Nat} {b : Block} {s : State V}
    (h : (f (n + 1)).1.entries = (f n).1.entries.insert b.id s) (hne : i ≠ b.id) : entryAt f i (n + 1) = entryAt f i n := by
  unfold entryAt
  rw [h]
  exact FinMap.find?_insert_ne _ _ hne

/-- The values of an entity at the starts of blocks. -/
def valuesIn (A : Analysis V) (ctx : Context V) (f : Nat → Stage V) (e : Entity) : Set V :=
  {v | ∃ b ∈ Analysis.sweepOrder ctx.graph, ∃ n s, entryAt f b.id n = some s ∧ v = State.valueOr A.domain s e}

/-- The state that a block is visited in has values from the starts of blocks. -/
theorem Visits.mem_valuesIn {b : Block} {s out : State V} {n : Nat} (h : Visits A ctx usual initial b s out (f n) (f (n + 1)))
    (e : Entity) : State.valueOr A.domain s e ∈ valuesIn A ctx f e :=
  ⟨b, h.mem, n + 1, s, by simp [entryAt, h.entries], rfl⟩

/-- The bounds of a chain: the values at the starts of blocks, and some names. -/
def boundsOf (A : Analysis V) (ctx : Context V) (f : Nat → Stage V) (N : Set Entity) : Bounds V := ⟨valuesIn A ctx f, ∅, N⟩

section Chain

variable (H : S.Sound A ctx usual) (moves : ∀ n, Moves A ctx usual initial (f n) (f (n + 1)))
include moves

/-- From some point on a block keeps its state or has it widened: each of its visits is counted, and
those above the threshold widen. -/
theorem eventually_widens (i : BlockId) : ∃ N, ∀ n, N ≤ n → entryAt f i (n + 1) = entryAt f i n ∨
      ∃ s input, entryAt f i n = some s ∧ entryAt f i (n + 1) = some (State.widen A.domain s input) := by
  -- The number of visits until the block is widened.
  let left := fun n => ctx.config.visitsBeforeWidening.toNat + 1 - (f n).1.visitsOf i
  have count : ∀ n, (entryAt f i (n + 1) = entryAt f i n ∧ (f (n + 1)).1.visitsOf i = (f n).1.visitsOf i) ∨
      ((f (n + 1)).1.visitsOf i = (f n).1.visitsOf i + 1 ∧ (ctx.config.visitsBeforeWidening.toNat < (f n).1.visitsOf i →
        ∃ s input, entryAt f i n = some s ∧ entryAt f i (n + 1) = some (State.widen A.domain s input))) := by
    intro n
    obtain ⟨sane, b, s, out, h⟩ := moves n
    by_cases hi : i = b.id
    · subst hi
      refine .inr ⟨by simp [Progress.visitsOf, h.visits], fun often => ?_⟩
      obtain ⟨previous, hprev⟩ : ∃ previous, entryAt f b.id n = some previous := by
        refine Option.ne_none_iff_exists'.1 fun hnone => ?_
        rw [sane.counted _ hnone] at often
        omega
      obtain ⟨input, hs⟩ := Progress.widens_of_nextEntry h.next hprev (Nat.le_of_lt often)
      refine ⟨previous, input, hprev, ?_⟩
      unfold entryAt
      rw [h.entries, FinMap.find?_insert_self, hs]
    · refine .inl ⟨entryAt_of_ne h.entries hi, ?_⟩
      simp only [Progress.visitsOf, h.visits, FinMap.find?_insert_ne _ _ hi]
  obtain ⟨N, hN⟩ := eventually_constant_of_descends Nat.lt_wfRel.wf (f := left) 0 fun n _ => by
    rcases count n with ⟨-, hv⟩ | ⟨hv, -⟩
    · exact .inl (by simp only [left, hv])
    · by_cases hle : (f n).1.visitsOf i ≤ ctx.config.visitsBeforeWidening.toNat
      · exact .inr (by show left (n + 1) < left n; simp only [left, hv]; omega)
      · exact .inl (by simp only [left, hv]; omega)
  refine ⟨N, fun n hn => ?_⟩
  rcases count n with ⟨he, -⟩ | ⟨hv, hwiden⟩
  · exact .inl he
  · refine .inr (hwiden ?_)
    have same : left (n + 1) = left n := (hN (n + 1) (by omega)).trans (hN n hn).symm
    simp only [left, hv] at same
    omega

include H

/-- From some point on an entity keeps its value at the start of a block. -/
theorem eventually_constant (i : BlockId) (e : Entity) :
    ∃ N, ∀ n, N ≤ n → valueAt f i e n = valueAt f i e N := by
  obtain ⟨start, hstart⟩ := eventually_widens moves i
  refine eventually_constant_of_descends (wellFounded_tightens H.descends) start fun n hn => ?_
  unfold valueAt
  rcases hstart n hn with same | ⟨s, input, hs, hs'⟩
  · exact .inl (by rw [same])
  · rw [hs, hs', Option.bind_some, Option.bind_some, State.find?_widen]
    cases he : s.find? e with
    | none =>
      split
      · exact .inr trivial
      · exact .inl rfl
    | some v =>
      rw [if_pos (.inl rfl), State.valueOr_of_find? _ he]
      by_cases hv : State.widenValue A.domain v (State.valueOr A.domain input e) = v
      · exact .inl (congrArg some hv)
      · exact .inr ⟨hv, _, rfl⟩

/-- At the starts of blocks an entity has finitely many values. -/
theorem valuesIn_finite (e : Entity) : (valuesIn A ctx f e).Finite := by
  have finite : (⋃ b ∈ {b | b ∈ Analysis.sweepOrder ctx.graph}, Set.range (valueAt f b.id e)).Finite := by
    refine Set.Finite.biUnion (List.finite_toSet _) fun b _ => ?_
    obtain ⟨N, hN⟩ := eventually_constant H moves b.id e
    exact finite_range_of_eventually_constant hN
  refine (finite.image fun o => o.getD (A.domain.missing e)).subset ?_
  rintro _ ⟨b, hb, n, s, hs, rfl⟩
  refine ⟨valueAt f b.id e n, Set.mem_biUnion (by exact hb) ⟨n, rfl⟩, ?_⟩
  unfold valueAt State.valueOr
  rw [hs]
  rfl

theorem small_boundsOf {N : Set Entity} (hN : N.Finite) : S.Small (boundsOf A ctx f N) :=
  ⟨fun e => H.few_of_finite _ (valuesIn_finite H moves e), H.few_of_finite _ Set.finite_empty, hN⟩

end Chain

/-- Some rank is above all temporaries that the body uses. -/
theorem exists_rank (graph : Graph) (rank : CaptureId → Nat) :
    ∃ r, ∀ b ∈ graph.blocks, ∀ op ∈ b.allOperations, ∀ c ∈ op.used, rank c < r := by
  obtain ⟨r, hr⟩ := (((List.finite_toSet graph.blocks).biUnion fun b _ =>
    (List.finite_toSet b.allOperations).biUnion fun op _ => List.finite_toSet op.used).image rank).bddAbove
  refine ⟨r + 1, fun b hb op hop c hc => Nat.lt_succ_iff.2 (hr ⟨c, ?_, rfl⟩)⟩
  exact Set.mem_biUnion (x := b) hb (Set.mem_biUnion (x := op) hop hc)

/-- The states at the ends of blocks mention some entities only. -/
structure CoveredAt (S : Scope V) (X : Set Entity) (p : Progress V) : Prop where
  /-- At the starts. -/
  entries : ∀ i s, p.entries.find? i = some s → S.Covered X s
  /-- At the ends. -/
  exits : ∀ i s, p.exits.find? i = some s → S.Covered X s

/-- A visit that keeps to bounds mentions nothing else. -/
theorem Visits.covered (H : S.Sound A ctx usual) {X : Set Entity} {b : Block} {s out : State V} {c c' : Stage V}
    (h : Visits A ctx usual initial b s out c c') (hc : CoveredAt S X c.1) (hinitial : S.Covered X initial)
    (run : S.Covered X s → S.Covered X out) : CoveredAt S X c'.1 := by
  have hs : S.Covered X s := by
    obtain ⟨input, hinput, hs⟩ := Progress.eq_of_nextEntry_eq_some h.next
    have cover : S.Covered X input := Progress.inflow_induction hinitial (fun _ _ => H.covered_merge) hc.exits hinput
    rcases hs with rfl | ⟨-, previous, hprev, -, rfl⟩
    · exact cover
    · exact H.covered_widen (hc.entries _ _ hprev) cover
  constructor
  · intro i t ht
    rw [h.entries] at ht
    exact FinMap.find?_insert_ind ht hs hc.entries
  · intro i t ht
    rcases h.exits with he | he
    · exact hc.exits i t (he ▸ ht)
    · rw [he] at ht
      exact FinMap.find?_insert_ind ht (run hs) hc.exits

/-- The number of sweeps so far does not matter for visits. -/
theorem Moves.of_passes {p : Progress V} {m : Machine V} {passes : Nat} {c : Stage V} (sane : Sane ctx (p, m))
    (h : Moves A ctx usual initial ({ p with passes }, m) c) : Moves A ctx usual initial (p, m) c := by
  obtain ⟨-, b, s, out, h⟩ := h
  exact ⟨sane, b, s, out, h.mem, h.next, h.run, h.entries, h.visits, h.exits⟩

section Settles

variable (H : S.Sound A ctx usual) (distinct : ctx.graph.DistinctIds) (layered : ctx.graph.Layered rank)
include H distinct layered

/-- The temporaries below a rank stand for finitely many entities: by induction on the rank, as what those of a rank come
to stand for is named with the help of lower ones. -/
theorem standing_finite (moves : ∀ n, Moves A ctx usual initial (f n) (f (n + 1))) (r : Nat) :
    ∃ N : Set Entity, N.Finite ∧ ∀ n c e, rank c < r → (f n).2.notes.resolver.bindings.find? c = some e → e ∈ N := by
  induction r with
  | zero => exact ⟨∅, Set.finite_empty, fun _ _ _ h => absurd h (Nat.not_lt_zero _)⟩
  | succ r ih =>
    obtain ⟨N, hN, below⟩ := ih
    choose named finite binds using fun (b : Block) (hb : b ∈ ctx.graph.blocks) =>
      runBlock_binds H distinct layered hb r (small_boundsOf H moves hN)
    refine ⟨(f 0).2.standing ∪ ⋃ (b) (hb : b ∈ ctx.graph.blocks), named b hb,
      (f 0).2.standing_finite.union ((List.finite_toSet _).biUnion' finite), fun n => ?_⟩
    induction n with
    | zero => exact fun c e _ he => .inl ⟨c, he⟩
    | succ n ih =>
      intro c e hc he
      obtain ⟨sane, b, s, out, h⟩ := moves n
      have hb := Analysis.mem_blocks_of_mem_sweepOrder h.mem
      rcases (binds b hb s _ sane.named (below n) h.mem_valuesIn).of_run h.run c e (Nat.lt_succ_iff.1 hc) he with he | he
      · exact ih c e hc he
      · exact .inr (Set.mem_iUnion₂.2 ⟨b, hb, he⟩)

/-- What the visits of blocks name, and what the states mention to begin with. -/
theorem exists_cover (known : Set CaptureId) (used : ∀ b ∈ ctx.graph.blocks, ∀ op ∈ b.allOperations, ∀ c ∈ op.used, c ∈ known)
    {B : Bounds V} (hB : S.Small B) (l : List (State V)) :
    ∃ X : Set Entity, X.Finite ∧ (∀ s ∈ l, S.Covered X s) ∧ ∀ b ∈ ctx.graph.blocks, ∀ s m, Named ctx m →
      (∀ c ∈ known, ∀ e, m.notes.resolver.bindings.find? c = some e → e ∈ B.names) → S.Fits A.domain B X s →
        Visit.Yields (A.runBlock ctx usual b s) m fun out m' => Named ctx m' ∧ S.Covered X out := by
  choose B' small run using fun (b : Block) (hb : b ∈ ctx.graph.blocks) =>
    runBlock_keeps H distinct layered hb known (used b hb) hB
  choose Y finite cover using fun s : State V => H.finite_cover s
  refine ⟨(⋃ (b) (hb : b ∈ ctx.graph.blocks), (B' b hb).names) ∪ ⋃ s ∈ {s | s ∈ l}, Y s, ?_, fun s hs => ?_,
    fun b hb => run b hb _ (Set.subset_union_of_subset_left ?_ _)⟩
  · exact ((List.finite_toSet _).biUnion' fun b hb => (small b hb).names).union
      ((List.finite_toSet _).biUnion fun s _ => finite s)
  · exact cover s _ (Set.subset_union_of_subset_right (Set.subset_biUnion_of_mem (u := Y) hs) _)
  · exact Set.subset_iUnion₂ (s := fun b hb => (B' b hb).names) b hb

/-- There is no infinite chain of visits. -/
theorem not_chain (moves : ∀ n, Moves A ctx usual initial (f n) (f (n + 1))) : False := by
  -- The bounds: the values at the starts of blocks, and what temporaries stand for.
  obtain ⟨r, used⟩ := exists_rank ctx.graph rank
  obtain ⟨N, hN, standing⟩ := standing_finite H distinct layered moves r
  obtain ⟨X, hX, hstart, hrun⟩ := exists_cover H distinct layered {c | rank c < r} used (small_boundsOf H moves hN)
    (initial :: ((f 0).1.entries.values ++ (f 0).1.exits.values))
  -- Whatever is mentioned to begin with or named by a visit is all that is ever mentioned.
  have covered : ∀ n, CoveredAt S X (f n).1 := by
    intro n
    induction n with
    | zero =>
      have mem : ∀ {m : FinMap BlockId (State V)} {i s}, m.find? i = some s → s ∈ m.values := fun h =>
        List.mem_map.2 ⟨_, FinMap.mem_entries.2 h, rfl⟩
      exact ⟨fun i s hs => hstart s (by simp [mem hs]), fun i s hs => hstart s (by simp [mem hs])⟩
    | succ n ih =>
      obtain ⟨sane, b, s, out, h⟩ := moves n
      refine h.covered H ih (hstart initial List.mem_cons_self) fun hs => ?_
      exact ((hrun b (Analysis.mem_blocks_of_mem_sweepOrder h.mem) s _ sane.named (fun c hc e => standing n c e hc)
        ⟨h.mem_valuesIn, hs⟩).of_run h.run).2
  -- From some point on all blocks only widen, and all values are constant.
  obtain ⟨N, hwidens, hconstant⟩ : ∃ N, (∀ b ∈ Analysis.sweepOrder ctx.graph, ∀ n, N ≤ n →
      entryAt f b.id (n + 1) = entryAt f b.id n ∨ ∃ s input, entryAt f b.id n = some s ∧
        entryAt f b.id (n + 1) = some (State.widen A.domain s input)) ∧
      ∀ b ∈ Analysis.sweepOrder ctx.graph, ∀ e ∈ X, valueAt f b.id e (N + 1) = valueAt f b.id e N := by
    choose M hM using fun b : Block => eventually_widens moves b.id
    choose K hK using fun (b : Block) (e : Entity) => eventually_constant H moves b.id e
    obtain ⟨m, hm⟩ := ((List.finite_toSet (Analysis.sweepOrder ctx.graph)).image M).bddAbove
    obtain ⟨k, hk⟩ := (Set.Finite.image2 K (List.finite_toSet (Analysis.sweepOrder ctx.graph)) hX).bddAbove
    refine ⟨max m k, fun b hb n hn => hM b n ?_, fun b hb e he => ?_⟩
    · exact (hm ⟨b, hb, rfl⟩).trans ((Nat.le_max_left m k).trans hn)
    · have hle : K b e ≤ max m k := (hk ⟨b, hb, e, he, rfl⟩).trans (Nat.le_max_right m k)
      rw [hK b e _ (Nat.le_succ_of_le hle), hK b e _ hle]
  -- So the next visit finds the state that it is to leave.
  obtain ⟨-, b, s, out, h⟩ := moves N
  have hs : entryAt f b.id (N + 1) = some s := by simp [entryAt, h.entries]
  have hne : entryAt f b.id N ≠ some s := Progress.ne_of_nextEntry h.next
  rcases hwidens b h.mem N (Nat.le_refl N) with same | ⟨t, input, ht, -⟩
  · exact hne (same ▸ hs)
  · refine hne (ht.trans (congrArg some (FinMap.ext fun e => ?_)))
    by_cases he : e ∈ X
    · have := hconstant b h.mem e he
      unfold valueAt at this
      rw [hs, ht] at this
      exact this.symm
    · have unmentioned : ∀ u : State V, S.Covered X u → u.find? e = none := fun u hu =>
        Option.eq_none_iff_forall_ne_some.2 fun v hv => he (hu e v hv).1
      rw [unmentioned t ((covered N).entries _ _ ht), unmentioned s ((covered (N + 1)).entries _ _ hs)]

/-- Visits of blocks do not go on forever. -/
theorem wellFounded_visits (initial : State V) :
    WellFounded fun c' c => Moves A ctx usual initial c c' := by
  rw [wellFounded_iff_isEmpty_descending_chain]
  exact ⟨fun ⟨_, moves⟩ => not_chain H distinct layered moves⟩

/-! ### Sweeps -/

/-- What a part of a sweep comes to: some visits, and at least one if anything has changed. -/
structure Swept (A : Analysis V) (ctx : Context V) (usual : Call V → Visit V V) (initial : State V) (c : Stage V)
    (changed : Bool) (c' : Stage V) : Prop where
  /-- The stage that it comes to. -/
  sane : Sane ctx c'
  /-- The visits. -/
  visits : Relation.ReflTransGen (Moves A ctx usual initial) c c'
  /-- A change is due to a visit. -/
  changed : changed = true → Relation.TransGen (Moves A ctx usual initial) c c'

theorem visitBlock_swept {b : Block} (hb : b ∈ Analysis.sweepOrder ctx.graph) {p : Progress V} {m : Machine V}
    (sane : Sane ctx (p, m)) :
    Visit.Yields (A.visitBlock ctx usual initial b p) m fun r m' => Swept A ctx usual initial (p, m) r.2 (r.1, m') := by
  unfold Analysis.visitBlock
  rw [Visit.yields_bind, Visit.yields_checkCancelled]
  refine ⟨sane.named.running, ?_⟩
  split
  · rw [Visit.yields_pure]
    exact ⟨sane, .refl, fun h => by cases h⟩
  · rename_i s hnext
    rw [Visit.yields_bind]
    obtain ⟨out, m', hrun, named⟩ :=
      runBlock_yields H distinct layered (Analysis.mem_blocks_of_mem_sweepOrder hb) s sane.named
    -- The stage afterwards, wherever what the block leaves is put.
    have swept : ∀ exits : FinMap BlockId (State V), (exits = p.exits ∨ exits = p.exits.insert b.id out) →
        ∀ changed, Swept A ctx usual initial (p, m) changed ({ p.enter b.id s with exits }, m') := by
      intro exits hexits changed
      have move : Moves A ctx usual initial (p, m) ({ p.enter b.id s with exits }, m') :=
        ⟨sane, b, s, out, hb, hnext, hrun, rfl, rfl, hexits⟩
      refine ⟨⟨named, fun i hi => ?_⟩, .single move, fun _ => .single move⟩
      have hne : i ≠ b.id := by
        rintro rfl
        simp [Progress.enter] at hi
      have hi' : p.entries.find? i = none := (FinMap.find?_insert_ne _ _ hne).symm.trans hi
      exact (Progress.visitsOf_enter_ne p s hne).trans (sane.counted i hi')
    refine ⟨out, m', hrun, ?_⟩
    dsimp only
    split
    · rw [Visit.yields_pure]
      exact swept p.exits (.inl rfl) false
    · rw [Visit.yields_pure]
      exact swept _ (.inr rfl) true

theorem sweep_swept (initial : State V) {l : List Block} (hl : ∀ b ∈ l, b ∈ Analysis.sweepOrder ctx.graph)
    {p : Progress V} {m : Machine V} (sane : Sane ctx (p, m)) :
    Visit.Yields (A.sweep ctx usual initial l p) m fun r m' => Swept A ctx usual initial (p, m) r.2 (r.1, m') := by
  induction l generalizing p m with
  | nil =>
    rw [Analysis.sweep, Visit.yields_pure]
    exact ⟨sane, .refl, fun h => by cases h⟩
  | cons b l ih =>
    rw [Analysis.sweep, Visit.yields_bind]
    refine (visitBlock_swept H distinct layered (hl b List.mem_cons_self) sane).mono fun r m₁ first => ?_
    obtain ⟨p₁, changed⟩ := r
    rw [Visit.yields_bind]
    refine (ih (fun c hc => hl c (List.mem_cons_of_mem _ hc)) first.sane).mono fun r m₂ later => ?_
    obtain ⟨p₂, changedLater⟩ := r
    rw [Visit.yields_pure]
    refine ⟨later.sane, first.visits.trans later.visits, fun h => ?_⟩
    rcases Bool.or_eq_true_iff.1 h with h | h
    · exact (first.changed h).trans_left later.visits
    · exact Relation.TransGen.trans_right first.visits (later.changed h)

/-! ### The end of the sweeps -/

/-- Sweeping ends with the same result for every limit that is high enough: by induction on the chain of
visits, as every sweep that changes something takes the run further along it. -/
theorem exists_settle_eq (initial : State V) (c : Stage V) (sane : Sane ctx c) :
    ∃ n p m, ∀ limit, n ≤ limit →
      ExceptT.run (A.settle ctx usual initial (Analysis.sweepOrder ctx.graph) limit c.1) c.2 = (.ok p, m) := by
  induction c using (wellFounded_visits H distinct layered initial).transGen.induction with
  | h c ih =>
    obtain ⟨p, m⟩ := c
    have sane' : Sane ctx ({ p with passes := p.passes + 1 }, m) := ⟨sane.named, sane.counted⟩
    obtain ⟨⟨p₁, changed⟩, m₁, hsweep, swept⟩ := sweep_swept H distinct layered initial (fun _ hb => hb) sane'
    have unfold : ∀ k, ExceptT.run (A.settle ctx usual initial (Analysis.sweepOrder ctx.graph) (k + 1) p) m =
        ExceptT.run (if changed then A.settle ctx usual initial (Analysis.sweepOrder ctx.graph) k p₁ else pure p₁) m₁ := by
      intro k
      rw [Analysis.settle, Visit.run_bind, hsweep]
    cases changed with
    | false =>
      refine ⟨1, p₁, m₁, fun limit hlimit => ?_⟩
      obtain ⟨k, rfl⟩ : ∃ k, limit = k + 1 := ⟨limit - 1, by omega⟩
      rw [unfold]
      rfl
    | true =>
      have further : Relation.TransGen (Moves A ctx usual initial) (p, m) (p₁, m₁) := by
        obtain ⟨c₁, move, rest⟩ := Relation.TransGen.head'_iff.1 (swept.changed rfl)
        exact Relation.TransGen.head' (move.of_passes sane) rest
      obtain ⟨n, p', m', h⟩ := ih (p₁, m₁) (Relation.transGen_swap.2 further) swept.sane
      refine ⟨n + 1, p', m', fun limit hlimit => ?_⟩
      obtain ⟨k, rfl⟩ : ∃ k, limit = k + 1 := ⟨limit - 1, by omega⟩
      rw [unfold]
      exact h k (by omega)

end Settles

end Settling

/-- What the first visit of a body works on. -/
def Context.firstMachine (ctx : Context V) (ledger : Ledger V) : Machine V :=
  ⟨State.empty, Notes.start (Resolver.start ctx.owner ctx.tracksUnknown), ledger⟩

/-- Nothing is noted to begin with. -/
theorem Named.first (ctx : Context V) {ledger : Ledger V} (running : ledger.cancelled = false) :
    Named ctx (ctx.firstMachine ledger) := by
  refine ⟨rfl, rfl, fun op _ owner indices a ha => ?_, fun op _ _ => ?_, running⟩
  · cases ha
  · simp [Context.firstMachine, Notes.start]

namespace Analysis

variable [DecidableEq V] (A : Analysis V) (ctx : Context V) (usual : Call V → Visit V V)

/-- Visits the body until nothing changes, by a limited number of sweeps. -/
def settleWithin (limit : Nat) : Visit V (Progress V) := do
  let initial ← Visit.check (A.initialState ctx)
  A.settle ctx usual initial (sweepOrder ctx.graph) limit Progress.start

/-- A body is solved within the number of sweeps that a machine word can count. -/
example : A.settleBody ctx usual = A.settleWithin ctx usual sweepLimit := rfl

/-- After finitely many sweeps a sweep changes nothing, and this is the end: no higher limit leads to another
result. Only work that was cancelled before has no result. -/
def Settles (ledger : Ledger V) : Prop :=
  ∃ n p m, ∀ limit, n ≤ limit → ExceptT.run (A.settleWithin ctx usual limit) (ctx.firstMachine ledger) =
    (if ledger.cancelled then .error .cancelled else .ok p, m)

variable {A ctx usual}

theorem run_settleWithin {initial : State V} (hinitial : A.initialState ctx = .ok initial) (limit : Nat) (m : Machine V) :
    ExceptT.run (A.settleWithin ctx usual limit) m =
      ExceptT.run (A.settle ctx usual initial (sweepOrder ctx.graph) limit Progress.start) m := by
  unfold settleWithin
  rw [hinitial, Visit.run_bind]
  rfl

/-- Cancelled work ends at the first block of a sweep. -/
theorem run_settle_cancelled (valid : ctx.graph.Valid) (initial : State V) (limit : Nat) {p : Progress V} {m : Machine V}
    (cancelled : m.ledger.cancelled = true) :
    ExceptT.run (A.settle ctx usual initial (sweepOrder ctx.graph) (limit + 1) p) m = (.error .cancelled, m) := by
  obtain ⟨first, hfirst, -⟩ := valid.block?_entry
  obtain ⟨b, l, hl⟩ := List.exists_cons_of_ne_nil (List.ne_nil_of_mem (mem_sweepOrder valid .entry hfirst))
  rw [hl, run_settle_of_cancelled initial b l limit p cancelled]

/-- A body settles if the hooks of the analysis keep to bounds, operation identifiers are distinct and
temporaries can be ranked. -/
theorem settles {S : Scope V} (H : S.Sound A ctx usual) (valid : ctx.graph.Valid) (distinct : ctx.graph.DistinctIds)
    (layered : ctx.graph.Layered rank) (ledger : Ledger V) : A.Settles ctx usual ledger := by
  obtain ⟨initial, hinitial⟩ := H.initial
  cases hc : ledger.cancelled with
  | true =>
    refine ⟨1, Progress.start, ctx.firstMachine ledger, fun limit hlimit => ?_⟩
    obtain ⟨k, rfl⟩ : ∃ k, limit = k + 1 := ⟨limit - 1, by omega⟩
    rw [run_settleWithin hinitial, run_settle_cancelled valid initial k hc, if_pos hc]
  | false =>
    have sane : Settling.Sane ctx (Progress.start, ctx.firstMachine ledger) := ⟨.first ctx hc, fun _ _ => rfl⟩
    obtain ⟨n, p, m, h⟩ := Settling.exists_settle_eq H distinct layered initial _ sane
    refine ⟨n, p, m, fun limit hlimit => ?_⟩
    rw [run_settleWithin hinitial, h limit hlimit, hc, if_neg Bool.false_ne_true]

end Analysis

end Dataflow
