import Dataflow.Proofs.Calls.Order
import Dataflow.Proofs.Lattice.Laws
import Dataflow.Proofs.State.Aliases
import Dataflow.Proofs.Visit.Names

/-!
# What an opaque call lets escape

Code that is not known may store anything into what it can reach. A call of such code writes to the storage that it
passes by reference, and then, by rounds, to the tracked fields and elements that lead on from the operands.

## The notions

* `Analysis.Escapes`: the tracked fields and elements that a call writes to, as a least set.
* `Analysis.Exposes`: what a call writes to directly, that is without following what anything holds.
* `Analysis.LetsEscape`: after a call an entity covers what unknown code may have stored into it.
* `PointsTo.Linked`: the objects that are reached by following what some fields and elements point to.

## What is proved

The rounds find the least set (`Analysis.mem_escaped`). What an entity holds after many writes depends on the writes to
itself and to its aliases only (`State.valueOr_writeAll_eq_top_iff`). So it is said exactly which entities escape: in
the analyses of literal content and of taint, which follow no references, only those that the call exposes directly
(`Analysis.letsEscape_iff`); in the points-to analysis also those that tracked ones lead to, but none that is not
tracked (`Analysis.pointsTo_letsEscape_iff`).
-/

namespace Dataflow

variable {V : Type}

/-! ### Many writes -/

namespace State

variable {P : V → Prop} {D : Domain V} {s : State V} {a : Entity}

/-- What an entity that holds a value gains from writes to its aliases. -/
def gained (D : Domain V) (a : Entity) (l : List (Entity × V)) (v : V) : V :=
  l.foldl (fun v x => if x.1.mayAlias a = true then D.merge v x.2 else v) v

section Laws

variable (law : IsSemilattice P D.merge D.top)
include law

/-- Whatever it gains, an entity that has the greatest value keeps it. -/
theorem gained_top {l : List (Entity × V)} (hl : ∀ x ∈ l, P x.2) : gained D a l D.top = D.top := by
  unfold gained
  induction l with
  | nil => rfl
  | cons x l ih =>
    rw [List.foldl_cons, (law.absorbs x.2 (hl x List.mem_cons_self)).1, ite_self]
    exact ih fun y hy => hl y (List.mem_cons_of_mem _ hy)

/-- From writes of the greatest value an entity gains that as soon as there is one to an alias. -/
theorem gained_eq_top_iff {l : List (Entity × V)} (hl : ∀ x ∈ l, x.2 = D.top) {v : V} (hv : P v) :
    gained D a l v = D.top ↔ v = D.top ∨ ∃ x ∈ l, x.1.mayAlias a = true := by
  induction l with
  | nil => simp [gained]
  | cons x l ih =>
    have hl' : ∀ y ∈ l, y.2 = D.top := fun y hy => hl y (List.mem_cons_of_mem _ hy)
    rw [gained, List.foldl_cons, ← gained, hl x List.mem_cons_self]
    by_cases halias : x.1.mayAlias a = true
    · rw [if_pos halias, (law.absorbs v hv).2]
      exact iff_of_true (gained_top law fun y hy => hl' y hy ▸ law.hasTop) (.inr ⟨x, List.mem_cons_self, halias⟩)
    · rw [if_neg halias, ih hl']
      simp [halias]

variable (missing : ∀ e, P (D.missing e))
include missing

theorem Each.writeAll {l : List (Entity × V)} (hs : s.Each P) (hl : ∀ x ∈ l, P x.2) : (writeAll D l s).Each P := by
  unfold State.writeAll
  induction l generalizing s with
  | nil => exact hs
  | cons x l ih =>
    exact ih (hs.write law missing x.1 (hl x List.mem_cons_self)) fun y hy => hl y (List.mem_cons_of_mem _ hy)

/-- After some writes, of which those to the entity itself are of the greatest value, an entity has the greatest value if
it had it, if it was written to, or if it is tracked and gains that much from the writes to its aliases. -/
theorem valueOr_writeAll_eq_top_iff {l : List (Entity × V)} (hs : s.Each P) (hl : ∀ x ∈ l, P x.2)
    (own : ∀ x ∈ l, x.1 = a → x.2 = D.top) :
    valueOr D (writeAll D l s) a = D.top ↔
      valueOr D s a = D.top ∨ a ∈ l.map (·.1) ∨ (s.find? a).isSome = true ∧ gained D a l (valueOr D s a) = D.top := by
  induction l generalizing s with
  | nil => exact ⟨.inl, by rintro (h | h | ⟨-, h⟩) <;> first | exact h | cases h⟩
  | cons x l ih =>
    have hx := hl x List.mem_cons_self
    have hl' : ∀ y ∈ l, P y.2 := fun y hy => hl y (List.mem_cons_of_mem _ hy)
    have after := ih (hs.write law missing x.1 hx) hl' fun y hy => own y (List.mem_cons_of_mem _ hy)
    rw [writeAll, List.foldl_cons, ← writeAll, after]
    have held := find?_write D x.1 x.2 s a
    by_cases hxa : a = x.1
    · -- the entity itself is written to, and keeps the greatest value from then on
      rw [if_pos hxa, own x List.mem_cons_self hxa.symm, (law.absorbs _ (hs.valueOr missing x.1)).2, ite_self] at held
      exact iff_of_true (.inl (valueOr_of_find? D (by rw [own x List.mem_cons_self hxa.symm]; exact held)))
        (.inr (.inl (by simp [hxa])))
    · rw [if_neg hxa] at held
      have mem : a ∈ (x :: l).map (·.1) ↔ a ∈ l.map (·.1) := by simp [hxa]
      rw [mem]
      cases hsa : s.find? a with
      | none =>
        rw [hsa, Option.map_none, ite_self] at held
        simp [valueOr_of_not_mentioned D held, valueOr_of_not_mentioned D hsa, held]
      | some u =>
        by_cases halias : x.1.mayAlias a = true
        · rw [if_pos halias, hsa, Option.map_some] at held
          have gains : gained D a (x :: l) u = gained D a l (D.merge u x.2) := by
            rw [gained, List.foldl_cons, if_pos halias]
            rfl
          rw [valueOr_of_find? D held, valueOr_of_find? D hsa, held, gains]
          constructor
          · rintro (h | h | h)
            · exact .inr (.inr ⟨rfl, by rw [h, gained_top law hl']⟩)
            · exact .inr (.inl h)
            · exact .inr (.inr h)
          · rintro (h | h | h)
            · exact .inl (by rw [h, (law.absorbs x.2 hx).1])
            · exact .inr (.inl h)
            · exact .inr (.inr h)
        · rw [if_neg halias, hsa] at held
          have gains : gained D a (x :: l) u = gained D a l u := by
            rw [gained, List.foldl_cons, if_neg halias]
            rfl
          rw [valueOr_of_find? D held, valueOr_of_find? D hsa, held, gains]

end Laws

end State

/-! ### Objects and cells -/

/-- A field or an element that holds references. -/
def Entity.IsCell (e : Entity) : Prop := e.isMethodLocal = false ∧ e.isReference = true

instance (e : Entity) : Decidable e.IsCell := inferInstanceAs (Decidable (_ ∧ _))

/-- The objects that can be reached from some objects by following what some fields and elements hold in a state. -/
inductive PointsTo.Linked (cell : Entity → Prop) (s : State PointsTo) (objects : List Location) : Location → Prop where
  /-- One of the objects. -/
  | root {l : Location} (h : l ∈ objects) : Linked cell s objects l
  /-- An object that a field or an element of one of them holds. -/
  | follow {l l' : Location} {e : Entity} (first : Linked cell s objects l) (he : cell e)
      (owner : l ∈ e.owner.heapLocations) (held : l' ∈ (State.valueOr Domain.pointsTo s e).heapLocations) :
      Linked cell s objects l'

namespace Analysis

/-! ### What is reached -/

section Closure

variable (A : Analysis V)

/-- The tracked fields and elements that a call of unknown code writes to besides the storage that it passes: those
that are exposed to the objects of the operands, and those of objects that such fields and elements lead to. -/
inductive Escapes (config : Config) (call : Call V) (s : State V) : Entity → Prop where
  /-- It is exposed as it is. -/
  | exposed {e : Entity} (tracked : (s.find? e).isSome = true) (nonlocal : e.isMethodLocal = false)
      (exposed : isExposed (escapesAll config call) (roots call) e = true) : Escapes config call s e
  /-- It belongs to an object that can be reached through another one. -/
  | through {e f : Entity} {l : Location} (first : Escapes config call s f) (tracked : (s.find? e).isSome = true)
      (nonlocal : e.isMethodLocal = false) (held : l ∈ A.reachable s f) (owner : l ∈ e.owner.heapLocations) :
      Escapes config call s e

variable {A} {everything : Bool} {s : State V} {objects objects' : List Location} {candidates : List Entity} {e : Entity}

theorem isExposed_append : isExposed everything (objects ++ objects') e = true ↔
    isExposed everything objects e = true ∨ ∃ l ∈ e.owner.heapLocations, l ∈ objects' := by
  simp only [isExposed, Bool.or_eq_true, List.any_eq_true, List.contains_iff_mem, List.mem_append]
  constructor
  · rintro (h | ⟨l, hl, h | h⟩)
    · exact .inl (.inl h)
    · exact .inl (.inr ⟨l, hl, h⟩)
    · exact .inr ⟨l, hl, h⟩
  · rintro ((h | ⟨l, hl, h⟩) | ⟨l, hl, h⟩)
    · exact .inl h
    · exact .inr ⟨l, hl, .inl h⟩
    · exact .inr ⟨l, hl, .inr h⟩

/-- Rounds reach only what a predicate holds of that no step leaves. -/
theorem of_mem_closure {P : Entity → Prop} (step : ∀ f e l, P f → e ∈ candidates → l ∈ A.reachable s f →
    l ∈ e.owner.heapLocations → P e) {rounds : Nat} (start : ∀ e ∈ candidates, isExposed everything objects e = true → P e)
    (h : e ∈ A.closure everything s rounds objects candidates) : P e := by
  induction rounds generalizing objects candidates with
  | zero => cases h
  | succ rounds ih =>
    rw [closure, List.partition_eq_filter_filter] at h
    split at h
    · cases h
    · rename_i reached others hp
      obtain ⟨rfl, rfl⟩ := Prod.mk.inj hp
      have first : ∀ f ∈ candidates.filter (isExposed everything objects), P f := fun f hf =>
        start f (List.mem_filter.1 hf).1 (List.mem_filter.1 hf).2
      rcases List.mem_append.1 h with h | h
      · exact first e h
      · refine ih (fun f e l hf he => step f e l hf (List.mem_filter.1 he).1) (fun e he hexposed => ?_) h
        have hmem := (List.mem_filter.1 he).1
        rcases isExposed_append.1 hexposed with hexposed | ⟨l, howner, hl⟩
        · exact start e hmem hexposed
        · obtain ⟨f, hf, hl⟩ := List.mem_flatMap.1 hl
          exact step f e l (first f hf) hmem hl howner

/-- A round that reaches something leaves fewer candidates. -/
theorem length_others_le {rounds : Nat} (enough : candidates.length ≤ rounds + 1)
    (some : candidates.filter (isExposed everything objects) ≠ []) :
    (candidates.filter (not ∘ isExposed everything objects)).length ≤ rounds := by
  have split := List.length_eq_length_filter_add (l := candidates) (isExposed everything objects)
  have reached := List.length_pos_iff.2 some
  simp only [Function.comp_def]
  omega

/-- When as many rounds were allowed as there are candidates, none is left that is exposed to what was reached. -/
theorem mem_closure_of_isExposed {rounds : Nat} (enough : candidates.length ≤ rounds) (he : e ∈ candidates)
    (h : isExposed everything (objects ++ (A.closure everything s rounds objects candidates).flatMap (A.reachable s)) e =
      true) : e ∈ A.closure everything s rounds objects candidates := by
  induction rounds generalizing objects candidates with
  | zero => exact absurd he (by simp [List.length_eq_zero_iff.1 (Nat.le_zero.1 enough)])
  | succ rounds ih =>
    rw [closure, List.partition_eq_filter_filter] at h ⊢
    split
    · rename_i others hp
      rw [hp] at h
      have none := (Prod.mk.inj hp).1
      simp only [List.flatMap_nil, List.append_nil] at h
      exact absurd (List.mem_filter.2 ⟨he, h⟩) (by simp [none])
    · rename_i reached others hne hp
      rw [hp] at h
      obtain ⟨rfl, rfl⟩ := Prod.mk.inj hp
      simp only [List.flatMap_append, ← List.append_assoc] at h
      by_cases first : isExposed everything objects e = true
      · exact List.mem_append_left _ (List.mem_filter.2 ⟨he, first⟩)
      · exact List.mem_append_right _ (ih (length_others_le enough hne) (List.mem_filter.2 ⟨he, by simp [first]⟩) h)

/-- The rounds find the least set. -/
theorem mem_escaped {config : Config} {call : Call V} : e ∈ A.escaped config call s ↔ A.Escapes config call s e := by
  have candidate : ∀ e, e ∈ s.entities.filter (fun e => !e.isMethodLocal) ↔
      (s.find? e).isSome = true ∧ e.isMethodLocal = false := fun e => by
    simp [State.entities, FinSet.mem_toList, FinMap.mem_keys]
  constructor
  · intro h
    refine of_mem_closure (P := A.Escapes config call s) (fun f e l hf he held howner => ?_) (fun e he h => ?_) h
    · obtain ⟨tracked, nonlocal⟩ := (candidate e).1 he
      exact .through hf tracked nonlocal held howner
    · obtain ⟨tracked, nonlocal⟩ := (candidate e).1 he
      exact .exposed tracked nonlocal h
  · intro h
    induction h with
    | exposed tracked nonlocal h =>
      exact mem_closure_of_isExposed le_rfl ((candidate _).2 ⟨tracked, nonlocal⟩) (isExposed_append.2 (.inl h))
    | through _ tracked nonlocal held howner ih =>
      exact mem_closure_of_isExposed le_rfl ((candidate _).2 ⟨tracked, nonlocal⟩)
        (isExposed_append.2 (.inr ⟨_, howner, List.mem_flatMap.2 ⟨_, ih, held⟩⟩))

end Closure

/-! ### A call -/

section Call

variable (A : Analysis V)

/-- Values that may have been stored into some entities by unknown code. -/
def escapedValues (l : List Entity) : List (Entity × V) := l.map fun e => (e, A.escapedValue e)

/-- The state when the storage that a call passes by reference has escaped. -/
def passing (call : Call V) (s : State V) : State V :=
  State.writeAll A.domain (A.escapedValues (passedStorage call)) s

/-- What a call of unknown code writes to, in this order. -/
def overwritten (config : Config) (call : Call V) (s : State V) : List Entity :=
  passedStorage call ++ A.escaped config call (A.passing call s)

/-- After a call of unknown code an entity covers what that may have stored into it. -/
def LetsEscape (config : Config) (call : Call V) (m : Machine V) (e : Entity) : Prop :=
  ∃ v m', ExceptT.run (A.callOpaquely config call) m = (.ok v, m') ∧
    A.domain.merge (A.escapedValue e) (State.valueOr A.domain m'.state e) = State.valueOr A.domain m'.state e

variable {A} {P : V → Prop} {config : Config} {call : Call V} {m : Machine V} {s : State V} {e : Entity}

theorem mem_escapedValues {l : List Entity} {x : Entity × V} :
    x ∈ A.escapedValues l ↔ x.1 ∈ l ∧ x.2 = A.escapedValue x.1 := by
  rw [escapedValues, List.mem_map]
  constructor
  · rintro ⟨f, hf, rfl⟩
    exact ⟨hf, rfl⟩
  · exact fun ⟨h, hv⟩ => ⟨x.1, h, Prod.ext rfl hv.symm⟩

theorem map_fst_escapedValues (A : Analysis V) (l : List Entity) : (A.escapedValues l).map (·.1) = l := by
  rw [escapedValues, List.map_map]
  exact List.map_id l

/-- To let everything escape that a call may write to through its operands succeeds, and it is these writes. -/
theorem run_escapeReachable (plain : A.write = fun e v s => .ok (State.write A.domain e v s)) :
    ExceptT.run (A.escapeReachable config call) m = (.ok ⟨⟩, { m with
      state := State.writeAll A.domain (A.escapedValues (A.escaped config call m.state)) m.state }) := by
  have read : ExceptT.run (Visit.state : Visit V (State V)) m = (.ok m.state, m) := rfl
  rw [escapeReachable, Visit.run_bind, read]
  exact run_storeAll plain _ m

/-- A call of unknown code succeeds, and all that it does to the state are these writes. -/
theorem run_callOpaquely (plain : A.write = fun e v s => .ok (State.write A.domain e v s)) :
    ExceptT.run (A.callOpaquely config call) m = (.ok (A.unknownValue call.operation), { m with
      state := State.writeAll A.domain (A.escapedValues (A.overwritten config call m.state)) m.state }) := by
  have split : State.writeAll A.domain (A.escapedValues (A.overwritten config call m.state)) m.state =
      State.writeAll A.domain (A.escapedValues (A.escaped config call (A.passing call m.state)))
        (A.passing call m.state) := by
    rw [overwritten, escapedValues, List.map_append, State.writeAll, List.foldl_append]
    rfl
  have passes : ExceptT.run (A.escapeAll (passedStorage call)) m = (.ok ⟨⟩, { m with state := A.passing call m.state }) :=
    run_storeAll plain _ m
  rw [callOpaquely, Visit.run_bind, passes, split]
  dsimp only
  rw [Visit.run_bind, run_escapeReachable plain]
  rfl

/-- Storage that is passed by reference is tracked from then on. -/
theorem isSome_find?_passing : ((A.passing call s).find? e).isSome = true ↔
    (s.find? e).isSome = true ∨ e ∈ passedStorage call := by
  rw [passing, State.isSome_find?_writeAll, map_fst_escapedValues]

/-- When an entity has the greatest value after a call, if that is what may have been stored into it. -/
theorem letsEscape_iff_top (plain : A.write = fun e v s => .ok (State.write A.domain e v s))
    (law : IsSemilattice P A.domain.merge A.domain.top) (missing : ∀ e, P (A.domain.missing e))
    (values : ∀ e, P (A.escapedValue e)) (hs : m.state.Each P) (greatest : A.escapedValue e = A.domain.top) :
    A.LetsEscape config call m e ↔ State.valueOr A.domain m.state e = A.domain.top ∨
      e ∈ A.overwritten config call m.state ∨ (m.state.find? e).isSome = true ∧
        State.gained A.domain e (A.escapedValues (A.overwritten config call m.state)) (State.valueOr A.domain m.state e) =
          A.domain.top := by
  have hl : ∀ x ∈ A.escapedValues (A.overwritten config call m.state), P x.2 := fun x hx =>
    (mem_escapedValues.1 hx).2 ▸ values x.1
  have own : ∀ x ∈ A.escapedValues (A.overwritten config call m.state), x.1 = e → x.2 = A.domain.top := fun x hx hxe => by
    rw [(mem_escapedValues.1 hx).2, hxe, greatest]
  have after : P (State.valueOr A.domain
      (State.writeAll A.domain (A.escapedValues (A.overwritten config call m.state)) m.state) e) :=
    State.Each.valueOr missing (State.Each.writeAll law missing hs hl) e
  have written := State.valueOr_writeAll_eq_top_iff law missing (a := e) hs hl own
  rw [map_fst_escapedValues] at written
  rw [LetsEscape, run_callOpaquely plain, ← written, greatest]
  constructor
  · rintro ⟨v, m', hrun, h⟩
    cases hrun
    rw [← h, (law.absorbs _ after).1]
  · intro h
    exact ⟨_, _, rfl, by rw [h, (law.absorbs _ law.hasTop).1]⟩

end Call

/-! ### Analyses that follow no references -/

/-- What a call of unknown code writes to although it follows nothing that anything holds: the storage that it passes
by reference, and what is exposed to the objects of the operands. -/
def Exposes (config : Config) (call : Call V) (s : State V) (e : Entity) : Prop :=
  e ∈ passedStorage call ∨ (s.find? e).isSome = true ∧ e.isMethodLocal = false ∧
    isExposed (escapesAll config call) (roots call) e = true

/-- Where nothing leads on, only what is exposed directly is reached. -/
theorem escapes_iff {A : Analysis V} {config : Config} {call : Call V} {s : State V} {e : Entity}
    (nothing : ∀ f, A.reachable s f = []) : A.Escapes config call s e ↔
      (s.find? e).isSome = true ∧ e.isMethodLocal = false ∧
        isExposed (escapesAll config call) (roots call) e = true := by
  constructor
  · rintro (⟨tracked, nonlocal, exposed⟩ | ⟨_, _, _, held, _⟩)
    · exact ⟨tracked, nonlocal, exposed⟩
    · rw [nothing] at held
      cases held
  · exact fun ⟨tracked, nonlocal, exposed⟩ => .exposed tracked nonlocal exposed

/-- Without references to follow a call writes to nothing else. -/
theorem mem_overwritten_iff_exposes {A : Analysis V} {config : Config} {call : Call V} {s : State V} {e : Entity}
    (nothing : ∀ f, A.reachable (A.passing call s) f = []) :
    e ∈ A.overwritten config call s ↔ Exposes config call s e := by
  rw [overwritten, List.mem_append, mem_escaped, escapes_iff nothing, isSome_find?_passing, Exposes]
  constructor
  · rintro (h | ⟨h | h, rest⟩)
    · exact .inl h
    · exact .inr ⟨h, rest⟩
    · exact .inl h
  · rintro (h | ⟨h, rest⟩)
    · exact .inl h
    · exact .inr ⟨.inl h, rest⟩

/-- When a tracked entity escapes in an analysis that follows no references and that takes all that unknown code stores
for the greatest value. -/
theorem letsEscape_iff_exposes {A : Analysis V} {P : V → Prop}
    (plain : A.write = fun e v s => .ok (State.write A.domain e v s))
    (law : IsSemilattice P A.domain.merge A.domain.top) (missing : ∀ e, P (A.domain.missing e))
    (unfollowed : A.reachable = fun _ _ => []) (greatest : A.escapedValue = fun _ => A.domain.top) {config : Config}
    {call : Call V} {m : Machine V} {e : Entity} (hs : m.state.Each P) (tracked : (m.state.find? e).isSome = true) :
    A.LetsEscape config call m e ↔ State.valueOr A.domain m.state e = A.domain.top ∨
      ∃ f, Exposes config call m.state f ∧ f.mayAlias e = true := by
  have values : ∀ x ∈ A.escapedValues (A.overwritten config call m.state), x.2 = A.domain.top := fun x hx => by
    rw [(mem_escapedValues.1 hx).2, greatest]
  have nothing : ∀ f, A.reachable (A.passing call m.state) f = [] := fun f => by rw [unfollowed]
  have gained := State.gained_eq_top_iff law (a := e) values (hs.valueOr missing e)
  have aliased : (∃ x ∈ A.escapedValues (A.overwritten config call m.state), x.1.mayAlias e = true) ↔
      ∃ f, Exposes config call m.state f ∧ f.mayAlias e = true := by
    simp [escapedValues, mem_overwritten_iff_exposes nothing]
  rw [letsEscape_iff_top plain law missing (fun f => by rw [greatest]; exact law.hasTop) hs (by rw [greatest]), gained,
    aliased, mem_overwritten_iff_exposes nothing]
  constructor
  · rintro (h | h | ⟨-, h | h⟩)
    · exact .inl h
    · exact .inr ⟨e, h, by simp [Entity.mayAlias]⟩
    · exact .inl h
    · exact .inr h
  · rintro (h | h)
    · exact .inl h
    · exact .inr (.inr ⟨tracked, .inr h⟩)

/-- **What escapes in the analyses of literal content and of taint.** A tracked field or element covers what unknown
code may have stored into it exactly if it may have held anything before, or an alias of it is passed by reference or
exposed to the objects of the operands. It does not matter which objects those lead to. -/
theorem letsEscape_iff (rules : TaintRules) (config : Config) :
    (∀ call m e, m.state.Each Content.IsSmall → (m.state.find? e).isSome = true →
      (contents.LetsEscape config call m e ↔ State.valueOr Domain.contents m.state e = Content.any ∨
        ∃ f, Exposes config call m.state f ∧ f.mayAlias e = true)) ∧
    (∀ call m e, (m.state.find? e).isSome = true →
      ((taint rules).LetsEscape config call m e ↔ State.valueOr Domain.taint m.state e = .unknown ∨
        ∃ f, Exposes config call m.state f ∧ f.mayAlias e = true)) :=
  ⟨fun _ _ _ hs => letsEscape_iff_exposes rfl Content.isSemilattice missingContent_isSmall rfl rfl hs,
    fun _ _ _ => letsEscape_iff_exposes rfl taint_isSemilattice (fun _ => trivial) rfl rfl fun _ _ _ => trivial⟩

namespace Chain

open Nodes

/-- The field of a node with the next one. -/
def next : Symbol := ⟨"next", .field, node, some "Node", .value, 0⟩

/-- A method without a known body. -/
def visitor : Symbol := Symbol.method "C" "visit" none

/-- Links a second node to a first one, stores one into it and lets unknown code visit the first one. -/
def graph : Graph := body
  [.assignment (info 2 node) (ref 0 "x") (.objectCreation (info 1 node) []),
    .assignment (info 5 node) (ref 3 "y") (.objectCreation (info 4 node) []),
    .assignment (info 9 node) (.fieldRef (info 7 node) (some (ref 6 "x")) next) (ref 8 "y"),
    .assignment (info 13 int) (.fieldRef (info 11 int) (some (ref 10 "y")) number) (.literal (info 12 int) (.integer 1)),
    .invocation (info 15 none) visitor none [⟨none, ref 14 "x", .value⟩],
    .ret (info 18 int) (some (.fieldRef (info 17 int) (some (ref 16 "y")) number))]

/-- The body is run as usual, and no call is followed. -/
def context {V : Type} : Context V := Context.start graph Config.usual fun _ => none

/-- Where the references of the body point. -/
def objects : Option (Solution PointsTo) := ((pointsTo.solve context).run (Ledger.start false)).1.toOption

/-- The call, when it gets the first node. -/
def call (v : V) : Call V :=
  ⟨.invocation (info 15 none) visitor none [⟨none, ref 14 "x", .value⟩], visitor, none,
    [⟨⟨14⟩, none, .value, some (.localVar (Symbol.localVar "x" node) main), .known [created 1] .notNull, v⟩]⟩

end Chain

open Nodes Chain in
/-- What the first node contains is exposed to a visitor of it. -/
theorem letsEscape_iff_first : (taint Boxes.rules).LetsEscape Config.usual (call .notTainted)
    (machine (State.empty.insert (entity number 1) .notTainted) true) (entity number 1) := by
  obtain ⟨-, taint⟩ := letsEscape_iff Boxes.rules Config.usual
  refine (taint (call .notTainted) (machine (State.empty.insert (entity number 1) .notTainted) true) (entity number 1)
    (by decide +kernel)).2 (.inr ⟨entity number 1, .inr ?_, by decide +kernel⟩)
  decide +kernel

open Nodes Chain in
/-- The second node can be reached from the first one before the call, which gets that. Yet after the call the second
node contains one and nothing else. -/
theorem not_letsEscape_second :
    (∃ p s, objects = some p ∧ p.stateBefore ⟨15⟩ = some s ∧ (∃ v, p.valueAt ⟨14⟩ = some v ∧ v.heapLocations = [created 1]) ∧
      PointsTo.Linked (fun e => (s.find? e).isSome = true ∧ e.isMethodLocal = false) s [created 1] (created 4)) ∧
    ∃ c ledger t, (contents.solve { context with pointsTo := objects }).run (Ledger.start false) = (.ok c, ledger) ∧
      c.stateBefore ⟨18⟩ = some t ∧ (t.find? (entity number 4)).isSome = true ∧
        Content.merge (contents.escapedValue (entity number 4)) (State.valueOr Domain.contents t (entity number 4)) ≠
          State.valueOr Domain.contents t (entity number 4) := by
  constructor
  · have held : (objects.bind fun p => (p.stateBefore ⟨15⟩).bind fun s => (p.valueAt ⟨14⟩).map fun v =>
        (s.find? (entity next 1), v)) = some (some (.known [created 4] .notNull), .known [created 1] .notNull) := by
      decide +kernel
    obtain ⟨p, hp, found⟩ := Option.bind_eq_some_iff.1 held
    obtain ⟨s, hs, found⟩ := Option.bind_eq_some_iff.1 found
    obtain ⟨v, hv, both⟩ := Option.map_eq_some_iff.1 found
    obtain ⟨hnext, rfl⟩ := Prod.mk.inj both
    refine ⟨p, s, hp, hs, ⟨_, hv, rfl⟩, .follow (e := entity next 1) (.root List.mem_cons_self)
      ⟨by rw [hnext]; rfl, rfl⟩ List.mem_cons_self ?_⟩
    rw [State.valueOr_of_find? _ hnext]
    exact List.mem_cons_self
  · have kept : (((contents.solve { context with pointsTo := objects }).run (Ledger.start false)).1.toOption.bind fun c =>
        (c.stateBefore ⟨18⟩).map fun t => t.find? (entity number 4)) = some (some (.ofLiteral (.integer 1))) := by
      decide +kernel
    obtain ⟨c, ledger, t, h, ht, kept⟩ := exists_of_inspected kept
    refine ⟨c, ledger, t, h, ht, by rw [kept]; rfl, ?_⟩
    rw [State.valueOr_of_find? _ kept]
    decide +kernel

/-! ### The points-to analysis -/

/-- What references gain from writes by unknown code to their aliases. -/
theorem gained_unknown_eq_top_iff {l : List Entity} {a : Entity} {v : PointsTo} (hv : v.Valid) :
    State.gained Domain.pointsTo a (pointsTo.escapedValues l) v = .unknown ↔
      v = .unknown ∨ ∃ f ∈ l, f.mayAlias a = true ∧ (f.isReference = true ∨ v.merge PointsTo.noLocation = .unknown) := by
  induction l generalizing v with
  | nil => simp [State.gained, escapedValues]
  | cons f l ih =>
    have step : State.gained Domain.pointsTo a (pointsTo.escapedValues (f :: l)) v =
        State.gained Domain.pointsTo a (pointsTo.escapedValues l)
          (if f.mayAlias a = true then v.merge (PointsToAnalysis.unknown f.isReference) else v) := rfl
    have absorbed : (v.merge PointsTo.noLocation).merge PointsTo.noLocation = v.merge PointsTo.noLocation := by
      rw [PointsTo.merge_assoc hv noLocation_valid noLocation_valid, PointsTo.merge_self]
    rw [step]
    by_cases halias : f.mayAlias a = true
    · rw [if_pos halias, ih (PointsTo.merge_valid hv (unknown_valid _))]
      cases href : f.isReference with
      | true =>
        refine iff_of_true (.inl ?_) (.inr ⟨f, List.mem_cons_self, halias, .inl href⟩)
        exact PointsTo.merge_unknown v
      | false =>
        rw [show PointsToAnalysis.unknown false = PointsTo.noLocation from rfl, absorbed]
        constructor
        · rintro (h | ⟨g, hg, hga, h⟩)
          · exact .inr ⟨f, List.mem_cons_self, halias, .inr h⟩
          · exact .inr ⟨g, List.mem_cons_of_mem _ hg, hga, h⟩
        · rintro (h | ⟨g, hg, hga, h⟩)
          · exact .inl (by rw [h, PointsTo.unknown_merge])
          · rcases List.mem_cons.1 hg with rfl | hg
            · exact .inl (h.resolve_left (by simp [href]))
            · exact .inr ⟨g, hg, hga, h⟩
    · rw [if_neg halias, ih hv]
      simp [halias]

/-- A tracked entity covers what unknown code may have stored into it if it is written to. -/
theorem letsEscape_of_mem_overwritten {config : Config} {call : Call PointsTo} {m : Machine PointsTo} {e : Entity}
    (hs : m.state.Each PointsTo.Valid) (href : e.isReference = true)
    (h : e ∈ pointsTo.overwritten config call m.state) : pointsTo.LetsEscape config call m e := by
  have greatest : pointsTo.escapedValue e = PointsTo.unknown := by
    simp [pointsTo, PointsToAnalysis.unknown, href]
  exact (letsEscape_iff_top rfl PointsTo.isSemilattice PointsTo.missingPointsTo_valid (fun _ => unknown_valid _) hs
    greatest).2 (.inr (.inl h))

/-- What belongs to objects that tracked cells lead to escapes. -/
theorem escapes_of_linked {config : Config} {call : Call PointsTo} {s : State PointsTo} {l : Location}
    (linked : PointsTo.Linked (fun e => e.IsCell ∧ (s.find? e).isSome = true) s (roots call) l) {e : Entity}
    (nonlocal : e.isMethodLocal = false) (tracked : (s.find? e).isSome = true) (owner : l ∈ e.owner.heapLocations) :
    pointsTo.Escapes config call s e := by
  induction linked generalizing e with
  | root h =>
    refine .exposed tracked nonlocal ?_
    simp only [isExposed, Bool.or_eq_true, List.any_eq_true, List.contains_iff_mem]
    exact .inr ⟨_, owner, h⟩
  | @follow l l' f first hf howner held ih =>
    have followed : l' ∈ pointsTo.reachable s f := by
      obtain ⟨v, hv⟩ := Option.isSome_iff_exists.1 hf.2
      rw [State.valueOr_of_find? _ hv] at held
      simpa [pointsTo, hv] using held
    exact .through (ih hf.1.1 hf.2 howner) tracked nonlocal followed owner

/-- **What escapes in the points-to analysis.** A field or an element that holds references covers what unknown code
may have stored into it exactly if it may have pointed anywhere before, or is written to, or is tracked and has an alias
that is written to and that holds references, unless what the alias may hold instead adds enough to it. Written to are
the storage that is passed by reference and the tracked entities to which the state leads after that. So a cell that is
not tracked has its default, and what only such cells lead to does not escape. But if nothing is passed by reference,
then every tracked cell escapes to which tracked cells lead. -/
theorem pointsTo_letsEscape_iff (config : Config) (call : Call PointsTo) (m : Machine PointsTo)
    (hs : m.state.Each PointsTo.Valid) :
    (∀ e, e.IsCell → (pointsTo.LetsEscape config call m e ↔
      State.valueOr Domain.pointsTo m.state e = .unknown ∨
        (e ∈ passedStorage call ∨ pointsTo.Escapes config call (pointsTo.passing call m.state) e) ∨
        (m.state.find? e).isSome = true ∧ ∃ f,
          (f ∈ passedStorage call ∨ pointsTo.Escapes config call (pointsTo.passing call m.state) f) ∧
            f.mayAlias e = true ∧
            (f.isReference = true ∨ (State.valueOr Domain.pointsTo m.state e).merge PointsTo.noLocation = .unknown))) ∧
    (passedStorage call = [] → ∀ e l,
      PointsTo.Linked (fun e => e.IsCell ∧ (m.state.find? e).isSome = true) m.state (roots call) l →
      e.IsCell → (m.state.find? e).isSome = true → l ∈ e.owner.heapLocations → pointsTo.LetsEscape config call m e) := by
  have written : ∀ f, f ∈ pointsTo.overwritten config call m.state ↔
      f ∈ passedStorage call ∨ pointsTo.Escapes config call (pointsTo.passing call m.state) f := fun f => by
    rw [overwritten, List.mem_append, mem_escaped]
  constructor
  · intro e cell
    have greatest : pointsTo.escapedValue e = PointsTo.unknown := by
      simp [pointsTo, PointsToAnalysis.unknown, cell.2]
    have held : (State.valueOr Domain.pointsTo m.state e).Valid := hs.valueOr PointsTo.missingPointsTo_valid e
    have gained := gained_unknown_eq_top_iff (l := pointsTo.overwritten config call m.state) (a := e) held
    rw [letsEscape_iff_top rfl PointsTo.isSemilattice PointsTo.missingPointsTo_valid (fun _ => unknown_valid _) hs
      greatest]
    rw [written, show pointsTo.domain = Domain.pointsTo from rfl, show Domain.pointsTo.top = .unknown from rfl, gained]
    simp only [written]
    constructor
    · rintro (h | h | ⟨tracked, h | h⟩)
      · exact .inl h
      · exact .inr (.inl h)
      · exact .inl h
      · exact .inr (.inr ⟨tracked, h⟩)
    · rintro (h | h | ⟨tracked, h⟩)
      · exact .inl h
      · exact .inr (.inl h)
      · exact .inr (.inr ⟨tracked, .inr h⟩)
  · intro nothing e l linked cell tracked owner
    refine letsEscape_of_mem_overwritten hs cell.2 ((written e).2 (.inr ?_))
    have same : pointsTo.passing call m.state = m.state := by
      rw [passing, nothing]
      rfl
    rw [same]
    exact escapes_of_linked linked cell.1 tracked owner

namespace Chain

open Nodes

/-- The first node leads to the second one, which is the last. -/
def linked : State PointsTo :=
  (State.empty.insert (entity next 1) (.known [created 4] .notNull)).insert (entity next 4) PointsTo.nullLocation

theorem linked_each : linked.Each PointsTo.Valid := by
  have second : (PointsTo.known [created 4] .notNull).Valid :=
    ⟨Ascending.singleton _, by simp, rfl, fun _ => by simp [created]⟩
  have null : PointsTo.nullLocation.Valid := ⟨Ascending.singleton _, by simp, rfl, fun h => by cases h⟩
  exact (State.each_empty.insert _ second).insert _ null

end Chain

open Nodes Chain in
/-- The field of the second node escapes with the first one, which leads to it. -/
theorem pointsTo_letsEscape_iff_second : pointsTo.LetsEscape Config.usual (call (PointsTo.known [created 1] .notNull))
    (machine linked true) (entity next 4) := by
  obtain ⟨-, escapes⟩ := pointsTo_letsEscape_iff Config.usual (call (PointsTo.known [created 1] .notNull))
    (machine linked true) linked_each
  refine escapes rfl (entity next 4) (created 4) ?_ (by decide +kernel) (by decide +kernel) (by decide +kernel)
  exact .follow (l := created 1) (e := entity next 1) (.root (by decide +kernel)) (by decide +kernel) (by decide +kernel)
    (by decide +kernel)

open Nodes Chain in
/-- A field that nothing was stored into does not escape. -/
theorem not_pointsTo_letsEscape_untracked : (entity next 1).IsCell ∧
    PointsTo.Linked Entity.IsCell State.empty (roots (call (PointsTo.known [created 1] .notNull))) (created 1) ∧
    created 1 ∈ (entity next 1).owner.heapLocations ∧
    ¬pointsTo.LetsEscape Config.usual (call (PointsTo.known [created 1] .notNull)) (machine State.empty true)
      (entity next 1) := by
  refine ⟨by decide +kernel, .root (by decide +kernel), by decide +kernel, ?_⟩
  rintro ⟨v, m', hrun, covers⟩
  rw [run_callOpaquely rfl] at hrun
  cases hrun
  exact absurd covers (by decide +kernel)

end Analysis

end Dataflow
