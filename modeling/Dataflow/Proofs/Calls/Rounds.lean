import Dataflow.Proofs.Calls.Everything
import Dataflow.Proofs.State.Independence
import Mathlib.Order.Bounds.Defs

/-!
# The rounds in which things escape

What a call of unknown code may write to is found by rounds, until a round reaches nothing. How many rounds there may be is
bounded in advance. After that each entity that was reached is widened, and these writes change each other's entities.

## The notions

* `Analysis.Rounds`: the rounds without a bound, up to the one that reaches nothing.
* `Analysis.EscapeClosed`: a set of tracked entities that has what the call exposes, and what its members lead to.
* `Analysis.Widens`: some entities come to cover what may have been stored into them, and nothing else changes but their
  aliases.

## What is proved

The bound never stops the rounds (`Analysis.rounds_escaped`), and each of them but the last reaches something, so there are
no more of them than entities that are reached (`Analysis.Rounds.le_length`). What they reach is the least set that is closed
(`Analysis.isLeast_escaped`). All of it and nothing else is widened, in whichever order
(`Analysis.escapeReachable_widens_least`).
-/

namespace Dataflow

variable {V : Type}

/-- The state tracks an entity that belongs to no method. -/
def State.TracksShared (s : State V) (e : Entity) : Prop := (s.find? e).isSome = true ∧ e.isMethodLocal = false

namespace Analysis

/-! ### The loop -/

/-- So many rounds reach some candidates from some objects. The last round, which reaches nothing, is not counted. -/
inductive Rounds (A : Analysis V) (everything : Bool) (s : State V) :
    ℕ → List Location → List Entity → List Entity → Prop where
  /-- Nothing is reached. -/
  | last {objects : List Location} {candidates : List Entity} (nothing : candidates.filter (isExposed everything objects) = []) :
      Rounds A everything s 0 objects candidates []
  /-- Something is reached, and there are further rounds with the objects that it leads to. -/
  | next {n : ℕ} {objects : List Location} {candidates reached further : List Entity}
      (reaches : candidates.filter (isExposed everything objects) = reached) (some : reached ≠ [])
      (rest : Rounds A everything s n (objects ++ reached.flatMap (A.reachable s))
        (candidates.filter fun e => !isExposed everything objects e) further) :
      Rounds A everything s (n + 1) objects candidates (reached ++ further)

section Loop

variable {A : Analysis V} {everything : Bool} {s : State V} {objects : List Location} {candidates reached : List Entity}

/-- Each round but the last one reaches something. -/
theorem Rounds.le_length {n : ℕ} (h : A.Rounds everything s n objects candidates reached) : n ≤ reached.length := by
  induction h with
  | last => exact Nat.zero_le _
  | next _ some _ ih =>
    have := List.length_pos_iff.2 some
    rw [List.length_append]
    omega

/-- If as many rounds are allowed as there are candidates, it is not for want of rounds that the search ends. -/
theorem rounds_closure {rounds : ℕ} (enough : candidates.length ≤ rounds) :
    ∃ n, A.Rounds everything s n objects candidates (A.closure everything s rounds objects candidates) := by
  induction rounds generalizing objects candidates with
  | zero =>
    obtain rfl := List.length_eq_zero_iff.1 (Nat.le_zero.1 enough)
    exact ⟨0, .last rfl⟩
  | succ rounds ih =>
    rw [closure, List.partition_eq_filter_filter]
    split
    · rename_i others hp
      exact ⟨0, .last (Prod.mk.inj hp).1⟩
    · rename_i reached others hne hp
      obtain ⟨rfl, rfl⟩ := Prod.mk.inj hp
      obtain ⟨n, rest⟩ := ih (length_others_le enough hne)
      exact ⟨n + 1, .next rfl hne rest⟩

/-- The rounds of a call end. -/
theorem rounds_escaped (A : Analysis V) (config : Config) (call : Call V) (s : State V) :
    ∃ n, A.Rounds (escapesAll config call) s n (roots call) (s.entities.filter fun e => !e.isMethodLocal)
      (A.escaped config call s) :=
  rounds_closure le_rfl

end Loop

/-! ### What they reach -/

/-- A set of tracked fields and elements has all that a call exposes and all that its members lead to. -/
structure EscapeClosed (config : Config) (call : Call PointsTo) (s : State PointsTo) (E : Set Entity) : Prop where
  /-- Its members are tracked and belong to no method. -/
  shared : ∀ e ∈ E, s.TracksShared e
  /-- These are all if the analysis is pessimistic, or an object that may be any one is passed by value. -/
  everything : config.pessimistic = true ∨ PassesAnything call → ∀ e, s.TracksShared e → e ∈ E
  /-- Static fields are members. -/
  statics : ∀ e, s.TracksShared e → e.isStatic = true → e ∈ E
  /-- Fields and elements of unknown objects are members. -/
  unowned : ∀ e, s.TracksShared e → e.hasUnknownOwner = true → e ∈ E
  /-- Fields and elements of the objects that operands refer to are members. -/
  operands : ∀ e, s.TracksShared e → ∀ a ∈ call.operands, ∀ l ∈ a.location.heapLocations, l ∈ e.owner.heapLocations → e ∈ E
  /-- Fields and elements of the objects that members refer to are members. -/
  through : ∀ e, s.TracksShared e → ∀ f ∈ E, ∀ v, s.find? f = some v → ∀ l ∈ v.heapLocations,
    l ∈ e.owner.heapLocations → e ∈ E

variable {config : Config} {call : Call PointsTo} {s : State PointsTo}

theorem mem_reachable {f : Entity} {l : Location} :
    l ∈ pointsTo.reachable s f ↔ ∃ v, s.find? f = some v ∧ l ∈ v.heapLocations := by
  show l ∈ (s.find? f).elim [] (·.heapLocations) ↔ _
  cases s.find? f <;> simp

theorem Escapes.tracksShared {e : Entity} (h : pointsTo.Escapes config call s e) : s.TracksShared e := by
  cases h with
  | exposed tracked nonlocal => exact ⟨tracked, nonlocal⟩
  | through _ tracked nonlocal => exact ⟨tracked, nonlocal⟩

/-- What is exposed, word by word. -/
theorem isExposed_iff {e : Entity} : isExposed (escapesAll config call) (roots call) e = true ↔
    (config.pessimistic = true ∨ PassesAnything call) ∨ e.isStatic = true ∨ e.hasUnknownOwner = true ∨
      ∃ a ∈ call.operands, ∃ l ∈ a.location.heapLocations, l ∈ e.owner.heapLocations := by
  rw [← escapesAll_iff]
  simp only [isExposed, roots, Bool.or_eq_true, List.any_eq_true, List.contains_iff_mem, List.mem_flatMap, or_assoc]
  refine or_congr_right (or_congr_right (or_congr_right ?_))
  constructor
  · rintro ⟨l, owner, a, ha, hl⟩
    exact ⟨a, ha, l, hl, owner⟩
  · rintro ⟨a, ha, l, hl, owner⟩
    exact ⟨l, owner, a, ha, hl⟩

/-- The rounds reach the least closed set. -/
theorem isLeast_escaped (config : Config) (call : Call PointsTo) (s : State PointsTo) :
    IsLeast {E | EscapeClosed config call s E} {e | e ∈ pointsTo.escaped config call s} := by
  have exposed {e : Entity} (shared : s.TracksShared e) (h : isExposed (escapesAll config call) (roots call) e = true) :
      e ∈ pointsTo.escaped config call s := mem_escaped.2 (.exposed shared.1 shared.2 h)
  constructor
  · exact {
      shared := fun e he => (mem_escaped.1 he).tracksShared
      everything := fun all e shared => exposed shared (isExposed_iff.2 (.inl all))
      statics := fun e shared h => exposed shared (isExposed_iff.2 (.inr (.inl h)))
      unowned := fun e shared h => exposed shared (isExposed_iff.2 (.inr (.inr (.inl h))))
      operands := fun e shared a ha l hl owner => exposed shared (isExposed_iff.2 (.inr (.inr (.inr ⟨a, ha, l, hl, owner⟩))))
      through := fun e shared f hf v hv l hl owner =>
        mem_escaped.2 (.through (mem_escaped.1 hf) shared.1 shared.2 (mem_reachable.2 ⟨v, hv, hl⟩) owner) }
  · intro E closed e he
    replace he := mem_escaped.1 he
    induction he with
    | exposed tracked nonlocal h =>
      have shared : s.TracksShared _ := ⟨tracked, nonlocal⟩
      rcases isExposed_iff.1 h with all | static | unknown | ⟨a, ha, l, hl, owner⟩
      · exact closed.everything all _ shared
      · exact closed.statics _ shared static
      · exact closed.unowned _ shared unknown
      · exact closed.operands _ shared a ha l hl owner
    | through _ tracked nonlocal held owner ih =>
      obtain ⟨v, hv, hl⟩ := mem_reachable.1 held
      exact closed.through _ ⟨tracked, nonlocal⟩ _ ih v hv _ hl owner

/-! ### What becomes of it -/

/-- What lies between two states is that some entities escape. -/
structure Widens (A : Analysis V) (E : Set Entity) (s t : State V) : Prop where
  /-- They cover what unknown code may have stored into them. -/
  covers : ∀ e ∈ E, ∃ w, t.find? e = some w ∧ A.domain.merge (A.escapedValue e) w = w
  /-- What is tracked is the same. -/
  tracked : ∀ e, (t.find? e).isSome = (s.find? e).isSome
  /-- What is neither one of them nor may be the same storage as one of them holds what it held. -/
  spared : ∀ e, e ∉ E → (∀ f ∈ E, e.mayAlias f = false) → t.find? e = s.find? e

section Writes

variable {A : Analysis V} {P : V → Prop} {s : State V} {order : List Entity}

/-- Writes of what may have been stored into tracked entities widen them, in whichever order they come. -/
theorem widens_writeAll (law : IsSemilattice P A.domain.merge A.domain.top) (missing : ∀ e, P (A.domain.missing e))
    (values : ∀ e, P (A.escapedValue e)) (hs : s.Each P) (tracked : ∀ e ∈ order, (s.find? e).isSome = true) :
    A.Widens {e | e ∈ order} s (State.writeAll A.domain (A.escapedValues order) s) := by
  have same (e : Entity) : ((State.writeAll A.domain (A.escapedValues order) s).find? e).isSome = (s.find? e).isSome := by
    rw [Bool.eq_iff_iff, State.isSome_find?_writeAll, map_fst_escapedValues]
    exact or_iff_left_of_imp (tracked e)
  refine ⟨fun e he => ?_, same, fun e _ apart => State.find?_writeAll_of_apart fun x hx => ?_⟩
  · obtain ⟨w, hw⟩ := Option.isSome_iff_exists.1 ((same e).trans (tracked e he))
    have covers := merge_escapedValue_writeAll law missing values hs he
    rw [State.valueOr_of_find? A.domain hw] at covers
    exact ⟨w, hw, covers⟩
  · rw [Entity.mayAlias_comm]
    exact apart x.1 (mem_escapedValues.1 hx).1

end Writes

/-- A visit succeeds and widens some entities. -/
def Widening (A : Analysis V) (x : Visit V Unit) (E : Set Entity) (m : Machine V) : Prop :=
  ∃ t, ExceptT.run x m = (.ok (), { m with state := t }) ∧ A.Widens E m.state t

theorem widening_escapeAll {m : Machine PointsTo} (hs : m.state.Each PointsTo.Valid) {order : List Entity}
    (tracked : ∀ e ∈ order, (m.state.find? e).isSome = true) :
    pointsTo.Widening (pointsTo.escapeAll order) {e | e ∈ order} m :=
  ⟨_, run_storeAll rfl _ m,
    widens_writeAll PointsTo.isSemilattice PointsTo.missingPointsTo_valid (fun _ => unknown_valid _) hs tracked⟩

/-- **What escapes is widened, and nothing else.** In the points-to analysis the rounds of a call end, each of them having
reached something. What they reached is the least set of tracked fields and elements that has what the call exposes and
what its members lead to. All members come to cover what may have been stored into them, whatever else is tracked and has
no alias among them holds what it held, and nothing comes to be tracked. The same goes for the members in any other order. -/
theorem escapeReachable_widens_least (config : Config) (call : Call PointsTo) (m : Machine PointsTo)
    (hs : m.state.Each PointsTo.Valid) : ∃ E n,
    pointsTo.Rounds (escapesAll config call) m.state n (roots call)
      (m.state.entities.filter fun e => !e.isMethodLocal) E ∧ n ≤ E.length ∧
    IsLeast {F | EscapeClosed config call m.state F} {e | e ∈ E} ∧
    pointsTo.Widening (pointsTo.escapeReachable config call) {e | e ∈ E} m ∧
    ∀ order, order.Perm E → pointsTo.Widening (pointsTo.escapeAll order) {e | e ∈ E} m := by
  have least := isLeast_escaped config call m.state
  obtain ⟨n, rounds⟩ := rounds_escaped pointsTo config call m.state
  have any (order : List Entity) (p : order.Perm (pointsTo.escaped config call m.state)) :
      pointsTo.Widening (pointsTo.escapeAll order) {e | e ∈ pointsTo.escaped config call m.state} m := by
    have members : {e | e ∈ order} = {e | e ∈ pointsTo.escaped config call m.state} := Set.ext fun _ => p.mem_iff
    rw [← members]
    exact widening_escapeAll hs fun e he => (least.1.shared e (p.mem_iff.1 he)).1
  have run : ExceptT.run (pointsTo.escapeReachable config call) m =
      ExceptT.run (pointsTo.escapeAll (pointsTo.escaped config call m.state)) m :=
    (run_escapeReachable rfl).trans (run_storeAll rfl _ m).symm
  refine ⟨_, n, rounds, rounds.le_length, least, ?_, any⟩
  unfold Widening
  rw [run]
  exact any _ (.refl _)

namespace RoundTrip

open Nodes Chain

/-- Two nodes that lead to each other, and a third one that leads to the first. -/
def intertwined : State PointsTo :=
  ((State.empty.insert (entity next 1) (.known [created 4] .notNull)).insert (entity next 4)
    (.known [created 1] .notNull)).insert (entity next 7) (.known [created 1] .notNull)

theorem intertwined_each : intertwined.Each PointsTo.Valid := by
  have node (id : UInt32) : (PointsTo.known [created id] .notNull).Valid :=
    ⟨Ascending.singleton _, by simp, rfl, fun _ => by simp [created]⟩
  exact ((State.each_empty.insert _ (node 4)).insert _ (node 1)).insert _ (node 1)

end RoundTrip

open Nodes Chain RoundTrip in
/-- If the first node is handed over, its field escapes, and so does that of the node it leads to, although that leads back.
The field of the third one holds what it held. -/
theorem escapeReachable_widens_roundTrip : intertwined.Each PointsTo.Valid ∧ ∃ t,
    ExceptT.run (pointsTo.escapeReachable Config.usual (Chain.call (PointsTo.known [created 1] .notNull)))
      (machine intertwined true) = (.ok (), { machine intertwined true with state := t }) ∧
    (∃ w, t.find? (entity next 4) = some w ∧ PointsTo.unknown.merge w = w) ∧
    t.find? (entity next 7) = some (.known [created 1] .notNull) := by
  refine ⟨intertwined_each, ?_⟩
  obtain ⟨E, n, -, -, least, ⟨t, run, widens⟩, -⟩ := escapeReachable_widens_least Config.usual
    (Chain.call (PointsTo.known [created 1] .notNull)) (machine intertwined true) intertwined_each
  have found : pointsTo.escaped Config.usual (Chain.call (PointsTo.known [created 1] .notNull)) intertwined =
      [entity next 1, entity next 4] := by decide +kernel
  have members : {e | e ∈ E} = {e | e ∈ [entity next 1, entity next 4]} := by
    rw [least.unique (isLeast_escaped _ _ _), ← found]
    rfl
  rw [members] at widens
  refine ⟨t, run, widens.covers (entity next 4) (by simp), ?_⟩
  have apart : ∀ f ∈ [entity next 1, entity next 4], (entity next 7).mayAlias f = false := by decide +kernel
  have held : intertwined.find? (entity next 7) = some (.known [created 1] .notNull) := by decide +kernel
  exact (widens.spared (entity next 7) (by decide +kernel) apart).trans held

end Analysis

end Dataflow
