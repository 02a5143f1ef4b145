import Dataflow.Proofs.Copies.Escape
import Mathlib.Data.Set.Finite.List

/-!
# Calls that let everything escape

Code that gets hold of an object that is not known may write to any object. So whatever is tracked and not local should
escape at a call that is passed such an object.

## The notions

* `Analysis.PassesAnything`: a call passes an object by value that may be any one.
* `Analysis.LetsAllEscape`: in each state everything escapes that is tracked and not local.
* `Analysis.Strange`: a call has nothing to do with an entity.

## What is proved

Everything escapes in each state exactly if a call passes such an object by value, or if the analysis is pessimistic
(`Analysis.letsAllEscape_iff`). To show that nothing less will do, an entity is chosen that is strange to the call: a
field of an object that no operand refers to, by a name that nothing has that is passed by reference.
-/

namespace Dataflow

variable {V : Type}

/-! ### Writes -/

namespace State

variable {P : V → Prop} {D : Domain V} {s : State V} {a : Entity}

/-- Writes to other storage leave an entity as it is. -/
theorem find?_writeAll_of_apart {l : List (Entity × V)} (h : ∀ x ∈ l, x.1.mayAlias a = false) :
    (writeAll D l s).find? a = s.find? a := by
  unfold writeAll
  induction l generalizing s with
  | nil => rfl
  | cons x l ih =>
    have hx := h x List.mem_cons_self
    have hne : a ≠ x.1 := by
      rintro rfl
      simp [Entity.mayAlias] at hx
    rw [List.foldl_cons, ih fun y hy => h y (List.mem_cons_of_mem _ hy), find?_write, if_neg hne, if_neg (by simp [hx])]

variable (law : IsSemilattice P D.merge D.top) (missing : ∀ e, P (D.missing e))
include law missing

/-- An entity covers what was written to it if nothing else was written to it. -/
theorem merge_valueOr_writeAll {l : List (Entity × V)} {v : V} (hs : s.Each P) (hl : ∀ x ∈ l, P x.2) (hv : P v)
    (own : ∀ x ∈ l, x.1 = a → x.2 = v)
    (h : a ∈ l.map (·.1) ∨ D.merge v (valueOr D s a) = valueOr D s a) :
    D.merge v (valueOr D (writeAll D l s) a) = valueOr D (writeAll D l s) a := by
  unfold writeAll
  induction l generalizing s with
  | nil => exact h.resolve_left (by simp)
  | cons x l ih =>
    have hx := hl x List.mem_cons_self
    have held : P (valueOr D s a) := hs.valueOr missing a
    refine ih (hs.write law missing x.1 hx) (fun y hy => hl y (List.mem_cons_of_mem _ hy))
      (fun y hy => own y (List.mem_cons_of_mem _ hy)) ?_
    by_cases hxa : x.1 = a
    · obtain rfl := own x List.mem_cons_self hxa
      exact .inr ((merge_valueOr_write_iff law missing hs hx (by simp [hxa, Entity.mayAlias])).2 (.inl hxa.symm))
    · refine h.imp (fun mem => ?_) fun covers => ?_
      · exact (List.mem_cons.1 mem).resolve_left (Ne.symm hxa)
      · have written := find?_write D x.1 x.2 s a
        rw [if_neg (Ne.symm hxa)] at written
        cases hsa : s.find? a with
        | none =>
          rw [hsa, Option.map_none, ite_self] at written
          rw [valueOr_of_not_mentioned D hsa] at covers
          rw [valueOr_of_not_mentioned D written, covers]
        | some u =>
          rw [valueOr_of_find? D hsa] at covers held
          rw [hsa] at written
          split at written
          · rw [valueOr_of_find? D written, ← law.assoc v u x.2 hv held hx, covers]
          · rw [valueOr_of_find? D written, covers]

end State

namespace Analysis

/-! ### The notions -/

/-- A call passes an object by value that may be any one. -/
def PassesAnything (call : Call V) : Prop := ∃ a ∈ call.operands, a.refKind = .value ∧ a.location.isUnknown = true

instance (call : Call V) : Decidable (PassesAnything call) := inferInstanceAs (Decidable (∃ a ∈ call.operands, _))

/-- In each well-formed state a call lets everything escape that is tracked and not local. -/
def LetsAllEscape (A : Analysis V) (wellFormed : State V → Prop) (config : Config) (call : Call V) : Prop :=
  ∀ m : Machine V, wellFormed m.state → ∀ e, (m.state.find? e).isSome = true → e.isMethodLocal = false →
    A.LetsEscape config call m e

variable {A : Analysis V} {P : V → Prop} {config : Config} {call : Call V} {s : State V} {e : Entity}

theorem escapesAll_iff : escapesAll config call = true ↔ config.pessimistic = true ∨ PassesAnything call := by
  simp [escapesAll, PassesAnything, and_comm]

/-! ### Everything escapes -/

/-- If everything escapes, then so does whatever is tracked and not local. -/
theorem mem_overwritten_of_escapesAll (all : escapesAll config call = true) (tracked : (s.find? e).isSome = true)
    (nonlocal : e.isMethodLocal = false) : e ∈ A.overwritten config call s := by
  have held : ((A.passing call s).find? e).isSome = true := isSome_find?_passing.2 (.inl tracked)
  exact List.mem_append_right _ (mem_escaped.2 (.exposed held nonlocal (by simp [isExposed, all])))

/-- Whatever was written to covers what may have been stored into it, whichever of its aliases were written to as well. -/
theorem merge_escapedValue_writeAll (law : IsSemilattice P A.domain.merge A.domain.top)
    (missing : ∀ e, P (A.domain.missing e)) (values : ∀ e, P (A.escapedValue e)) (hs : s.Each P) {l : List Entity}
    (he : e ∈ l) : A.domain.merge (A.escapedValue e)
      (State.valueOr A.domain (State.writeAll A.domain (A.escapedValues l) s) e) =
        State.valueOr A.domain (State.writeAll A.domain (A.escapedValues l) s) e := by
  refine State.merge_valueOr_writeAll law missing hs (fun x hx => ?_) (values e) (fun x hx hxe => ?_) (.inl ?_)
  · rw [(mem_escapedValues.1 hx).2]
    exact values x.1
  · rw [(mem_escapedValues.1 hx).2, hxe]
  · rwa [map_fst_escapedValues]

/-- In analyses without writes of their own everything covers what may have been stored into it. -/
theorem letsAllEscape_of_escapesAll (plain : A.write = fun e v s => .ok (State.write A.domain e v s))
    (law : IsSemilattice P A.domain.merge A.domain.top) (missing : ∀ e, P (A.domain.missing e))
    (values : ∀ e, P (A.escapedValue e)) (all : escapesAll config call = true) :
    A.LetsAllEscape (State.Each P) config call := fun _ hs _ tracked nonlocal =>
  ⟨_, _, run_callOpaquely plain,
    merge_escapedValue_writeAll law missing values hs (mem_overwritten_of_escapesAll all tracked nonlocal)⟩

/-- In the analysis of copies everything is alone. -/
theorem copies_letsAllEscape {call : Call CopyClass} (all : escapesAll config call = true) :
    copies.LetsAllEscape CopyAnalysis.Partition config call := by
  intro m hs e tracked nonlocal
  refine (copies_letsEscape_iff_together hs).2 fun b _ _ => ⟨e, .inr ⟨tracked, nonlocal, ?_⟩, .inl ?_⟩
  · simp [isExposed, all]
  · simp [Entity.mayAlias]

/-! ### Strange entities -/

/-- A call has nothing to do with an entity: it exposes neither it nor an alias of it, unless everything is exposed. -/
structure Strange (call : Call V) (e : Entity) : Prop where
  /-- It is a field or an element. -/
  nonlocal : e.isMethodLocal = false
  /-- It is not exposed to the objects of the operands. -/
  unexposed : isExposed false (roots call) e = false
  /-- A write to what is passed by reference does not change it. -/
  apart : ∀ f ∈ passedStorage call, f.mayAlias e = false

/-- Only a field of the same name may be the same storage as a field. -/
theorem mayAlias_member_of_symbol?_ne {f : Entity} {field : Symbol} {owner : PointsTo} (h : f.symbol? ≠ some field) :
    f.mayAlias (.member field owner) = false := by
  cases f with
  | member g owner' =>
    have hne : g ≠ field := fun same => h (congrArg some same)
    simp [Entity.mayAlias, Entity.sameKind, hne]
  | _ => simp [Entity.mayAlias, Entity.sameKind]

/-- No list has all values of a sequence that never repeats one. -/
theorem exists_not_mem_of_injective {α : Type} {f : ℕ → α} (hf : Function.Injective f) (l : List α) : ∃ n, f n ∉ l := by
  obtain ⟨_, ⟨n, rfl⟩, hn⟩ := (Set.infinite_range_of_injective hf).exists_notMem_finite l.finite_toSet
  exact ⟨n, hn⟩

/-- Fields with longer and longer names. -/
def strangeField (n : ℕ) : Symbol :=
  ⟨String.ofList (List.replicate n 'x'), .field, some (.reference "Node"), some "Node", .value, 0⟩

/-- Objects at the ends of longer and longer chains of calls. -/
def strangeObject (n : ℕ) : Location := .allocation ⟨0⟩ (.method "C" "main" none) none (List.replicate n ⟨0⟩)

theorem strangeField_injective : Function.Injective strangeField := by
  intro m n h
  have names : List.replicate m 'x' = List.replicate n 'x' := String.ofList_injective (congrArg Symbol.name h)
  simpa using congrArg List.length names

theorem strangeObject_injective : Function.Injective strangeObject := by
  intro m n h
  injection h with _ _ _ chains
  simpa using congrArg List.length chains

/-- Some field of some object has nothing to do with a call, and there is a local of its name. -/
theorem exists_strange (call : Call V) : ∃ field owner, Strange call (.member field owner) ∧
    (Entity.member field owner).isReference = true ∧ ∀ method, Entity.localVar field method ∉ passedStorage call := by
  obtain ⟨n, hn⟩ := exists_not_mem_of_injective strangeField_injective ((passedStorage call).filterMap (·.symbol?))
  obtain ⟨k, hk⟩ := exists_not_mem_of_injective strangeObject_injective (roots call)
  have new : ∀ f ∈ passedStorage call, f.symbol? ≠ some (strangeField n) := fun f hf same =>
    hn (List.mem_filterMap.2 ⟨f, hf, same⟩)
  refine ⟨strangeField n, .known [strangeObject k] .notNull, ⟨rfl, ?_, fun f hf => ?_⟩, rfl, fun method hm => ?_⟩
  · have objects : (PointsTo.known [strangeObject k] .notNull).heapLocations = [strangeObject k] := rfl
    simpa [isExposed, Entity.isStatic, Entity.hasUnknownOwner, Entity.owner, PointsTo.isKnown, objects,
      strangeField, Symbol.isStatic] using hk
  · exact mayAlias_member_of_symbol?_ne (new f hf)
  · exact new _ hm rfl

/-- Nothing that a call exposes is an alias of a strange entity, if no other field or element is tracked. -/
theorem Strange.apart_of_exposes (strange : Strange call e) (few : escapesAll config call = false)
    (only : ∀ f, (s.find? f).isSome = true → f.isMethodLocal = false → f = e) {f : Entity}
    (h : Exposes config call s f) : f.mayAlias e = false := by
  rcases h with h | ⟨tracked, nonlocal, exposed⟩
  · exact strange.apart f h
  · obtain rfl := only f tracked nonlocal
    rw [few, strange.unexposed] at exposed
    cases exposed

/-- In analyses without writes of their own a strange entity holds what it held. -/
theorem Strange.covers_of_letsEscape (strange : Strange call e)
    (plain : A.write = fun e v s => .ok (State.write A.domain e v s)) (few : escapesAll config call = false) {v : V}
    (nothing : ∀ f, A.reachable (A.passing call (State.empty.insert e v)) f = [])
    (h : ∀ m : Machine V, m.state = State.empty.insert e v → A.LetsEscape config call m e) :
    A.domain.merge (A.escapedValue e) v = v := by
  obtain ⟨w, m', hrun, covers⟩ := h (Nodes.machine (State.empty.insert e v) true) rfl
  rw [run_callOpaquely plain] at hrun
  cases hrun
  have only : ∀ f, ((State.empty.insert e v).find? f).isSome = true → f.isMethodLocal = false → f = e := by
    intro f tracked _
    by_contra hne
    rw [FinMap.find?_insert_ne _ _ hne] at tracked
    cases tracked
  have kept := State.find?_writeAll_of_apart (D := A.domain) (s := State.empty.insert e v) (a := e)
    (l := A.escapedValues (A.overwritten config call (State.empty.insert e v))) fun x hx => by
      exact strange.apart_of_exposes few only ((mem_overwritten_iff_exposes nothing).1 (mem_escapedValues.1 hx).1)
  rw [FinMap.find?_insert_self] at kept
  dsimp only [Nodes.machine] at covers
  rwa [State.valueOr_of_find? A.domain kept] at covers

/-! ### The points-to analysis -/

/-- Values that lead to no object merge to one that leads to none. -/
theorem heapLocations_merge {a b : PointsTo} (ha : a.heapLocations = []) (hb : b.heapLocations = []) :
    (a.merge b).heapLocations = [] := by
  have unknownWith : ∀ n, (PointsTo.unknownWith n).heapLocations = [] := fun n => by cases n <;> rfl
  unfold PointsTo.merge
  split
  · exact ha
  · split
    all_goals first | assumption | rfl | skip
    · rename_i l m k n _
      unfold PointsTo.heapLocations at *
      simp only [PointsTo.locations, List.filter_eq_nil_iff] at *
      intro x hx
      exact (FinSet.mem_unionList.1 hx).elim (ha x) (hb x)
    · exact unknownWith _

/-- Storage that is passed by reference leads nowhere after it escaped, if nothing did before. -/
theorem pointsTo_reachable_passing {call : Call PointsTo} {s : State PointsTo}
    (hs : s.Each fun v => v.heapLocations = []) (f : Entity) : pointsTo.reachable (pointsTo.passing call s) f = [] := by
  have leads : ∀ e, (pointsTo.escapedValue e).heapLocations = [] := fun e => by
    simp only [pointsTo, PointsToAnalysis.unknown]
    split <;> rfl
  have unowned : ∀ s : State PointsTo, (s.Each fun v => v.heapLocations = []) → ∀ e : Entity, e.hasUnknownOwner = true →
      (State.valueOr Domain.pointsTo s e).heapLocations = [] := by
    intro s hs e unknown
    cases held : s.find? e with
    | some v =>
      rw [State.valueOr_of_find? _ held]
      exact hs e v held
    | none =>
      rw [State.valueOr_of_not_mentioned _ held]
      show (Domain.missingPointsTo e).heapLocations = []
      unfold Domain.missingPointsTo
      cases e <;> first | cases unknown | (split <;> rfl)
  have write : ∀ (s : State PointsTo) (e : Entity), (s.Each fun v => v.heapLocations = []) →
      (State.write Domain.pointsTo e (pointsTo.escapedValue e) s).Each fun v => v.heapLocations = [] := by
    intro s e hs a v hv
    rw [State.find?_write] at hv
    split at hv
    · obtain rfl := Option.some.inj hv
      split
      · exact heapLocations_merge (unowned s hs e ‹_›) (leads e)
      · exact leads e
    · split at hv
      · obtain ⟨u, hu, rfl⟩ := Option.map_eq_some_iff.1 hv
        exact heapLocations_merge (hs a u hu) (leads e)
      · exact hs a v hv
  have all : (pointsTo.passing call s).Each fun v => v.heapLocations = [] := by
    unfold passing State.writeAll escapedValues
    induction passedStorage call generalizing s with
    | nil => exact hs
    | cons e l ih => exact ih (write s e hs)
  show ((pointsTo.passing call s).find? f).elim [] (·.heapLocations) = []
  cases held : (pointsTo.passing call s).find? f with
  | none => rfl
  | some v => exact all f v held

/-! ### The analysis of copies -/

/-- A class of which all members are tracked. -/
theorem partition_assignAll (members : FinSet Entity) :
    CopyAnalysis.Partition (CopyAnalysis.assignAll members (.known members) State.empty) := by
  intro e
  by_cases he : e ∈ members
  · refine ⟨members, ?_, he, fun m hm => ?_⟩
    · rw [CopyAnalysis.classOf_assignAll, if_pos he]
    · rw [CopyAnalysis.classOf_assignAll, if_pos hm]
  · have alone : CopyAnalysis.classOf e (CopyAnalysis.assignAll members (.known members) State.empty) =
        .singleton e := by
      rw [CopyAnalysis.classOf_assignAll, if_neg he]
      exact State.valueOr_empty _ _
    refine ⟨FinSet.singleton e, alone, FinSet.mem_singleton.2 rfl, fun m hm => ?_⟩
    rw [FinSet.mem_singleton.1 hm, alone]
    rfl

/-- A strange entity keeps a local as its copy. -/
theorem not_copies_letsAllEscape {call : Call CopyClass} (few : escapesAll config call = false) :
    ¬copies.LetsAllEscape CopyAnalysis.Partition config call := by
  intro all
  obtain ⟨field, owner, strange, -, unpassed⟩ := exists_strange call
  generalize he : Entity.member field owner = e at strange
  generalize hx : Entity.localVar field (Symbol.method "C" "main" none) = x at unpassed
  have xlocal : x.isMethodLocal = true := hx ▸ rfl
  have hne : x ≠ e := by rw [← hx, ← he]; simp
  let members := FinSet.ofList [e, x]
  let s := CopyAnalysis.assignAll members (.known members) State.empty
  have mem : ∀ f, f ∈ members ↔ f = e ∨ f = x := fun f => by simp [members, FinSet.mem_ofList]
  have tracked : ∀ f, (s.find? f).isSome = true ↔ f = e ∨ f = x := fun f => by
    rw [CopyAnalysis.find?_assignAll, ← mem]
    by_cases hf : f ∈ members
    · simp [hf]
    · simp only [hf, iff_false]
      exact Bool.false_ne_true
  have together : CopyAnalysis.Together s e x := by
    rw [CopyAnalysis.Together, CopyAnalysis.classOf_assignAll, if_pos ((mem e).2 (.inl rfl))]
    exact (mem x).2 (.inr rfl)
  have escapes := all (Nodes.machine s true) (partition_assignAll members) e ((tracked e).2 (.inl rfl)) strange.nonlocal
  obtain ⟨g, exposed, halias⟩ :=
    (copies_letsEscape_iff_together (m := Nodes.machine s true) (partition_assignAll members)).1 escapes x together hne
  have only : ∀ f, (s.find? f).isSome = true → f.isMethodLocal = false → f = e := by
    intro f hf nonlocal
    refine ((tracked f).1 hf).resolve_right ?_
    rintro rfl
    simp [xlocal] at nonlocal
  rw [strange.apart_of_exposes few only exposed] at halias
  have hgx : g = x := by
    by_contra hgx
    rw [Entity.mayAlias_of_isMethodLocal (.inr xlocal) hgx] at halias
    simp at halias
  subst hgx
  rcases exposed with passed | ⟨-, nonlocal, -⟩
  · exact unpassed _ (hx ▸ passed)
  · simp [xlocal] at nonlocal

/-! ### When everything escapes -/

/-- **When everything escapes.** In each of the analyses, everything that is tracked and not local covers what unknown
code may have stored into it, whatever the state, exactly if the analysis is pessimistic or the call passes an object by
value that may be any one. It is not enough that such an object is passed by reference. -/
theorem letsAllEscape_iff (rules : TaintRules) (config : Config) :
    (∀ call, pointsTo.LetsAllEscape (State.Each PointsTo.Valid) config call ↔
      config.pessimistic = true ∨ PassesAnything call) ∧
    (∀ call, contents.LetsAllEscape (State.Each Content.IsSmall) config call ↔
      config.pessimistic = true ∨ PassesAnything call) ∧
    (∀ call, (taint rules).LetsAllEscape (State.Each fun _ => True) config call ↔
      config.pessimistic = true ∨ PassesAnything call) ∧
    (∀ call, copies.LetsAllEscape CopyAnalysis.Partition config call ↔
      config.pessimistic = true ∨ PassesAnything call) := by
  refine ⟨fun call => ?_, fun call => ?_, fun call => ?_, fun call => ?_⟩ <;> rw [← escapesAll_iff]
  · refine ⟨fun all => ?_, fun all => letsAllEscape_of_escapesAll rfl PointsTo.isSemilattice
      PointsTo.missingPointsTo_valid (fun _ => unknown_valid _) all⟩
    by_contra few
    obtain ⟨field, owner, strange, reference, -⟩ := exists_strange call
    have covers := strange.covers_of_letsEscape (A := pointsTo) (v := PointsTo.nullLocation) rfl (Bool.eq_false_of_not_eq_true few)
      (pointsTo_reachable_passing (State.each_empty.insert _ rfl)) fun m hm => all m
        (hm ▸ State.each_empty.insert _ nullLocation_valid) _ (by rw [hm, FinMap.find?_insert_self]; rfl) strange.nonlocal
    rw [show pointsTo.escapedValue (.member field owner) = .unknown by simp [pointsTo, PointsToAnalysis.unknown, reference]]
      at covers
    exact absurd covers (by decide +kernel)
  · refine ⟨fun all => ?_, fun all => letsAllEscape_of_escapesAll rfl Content.isSemilattice missingContent_isSmall
      (fun _ => Content.isSemilattice.hasTop) all⟩
    by_contra few
    obtain ⟨field, owner, strange, -⟩ := exists_strange call
    have covers := strange.covers_of_letsEscape (A := contents) (v := Content.bottom) rfl (Bool.eq_false_of_not_eq_true few)
      (fun _ => rfl) fun m hm => all m
        (hm ▸ State.each_empty.insert _ (Nat.zero_le _)) _ (by rw [hm, FinMap.find?_insert_self]; rfl) strange.nonlocal
    have kept : Content.any.merge .bottom = .bottom := covers
    exact absurd kept (by decide +kernel)
  · refine ⟨fun all => ?_, fun all => letsAllEscape_of_escapesAll rfl taint_isSemilattice (fun _ => trivial)
      (fun _ => trivial) all⟩
    by_contra few
    obtain ⟨field, owner, strange, -⟩ := exists_strange call
    have covers := strange.covers_of_letsEscape (A := taint rules) (v := .notTainted) rfl
      (Bool.eq_false_of_not_eq_true few) (fun _ => rfl) fun m hm => all m (fun _ _ _ => trivial) _
        (by rw [hm, FinMap.find?_insert_self]; rfl) strange.nonlocal
    have kept : Taint.unknown.merge .notTainted = .notTainted := covers
    exact absurd kept (by decide)
  · refine ⟨fun all => ?_, copies_letsAllEscape⟩
    by_contra few
    exact not_copies_letsAllEscape (Bool.eq_false_of_not_eq_true few) all

namespace Handing

open Nodes

/-- Some node that a method found. -/
def found : Operation := .assignment (info 9 node) (ref 7 "u") (.invocation (info 8 node) (Symbol.method "C" "find" node) none [])

/-- Creates a node with one in it, gets another node from somewhere, and hands unknown code the variable with that. -/
def graph : Graph := body
  [.assignment (info 2 node) (ref 0 "x") (.objectCreation (info 1 node) []),
    .assignment (info 6 int) (.fieldRef (info 4 int) (some (ref 3 "x")) number) (.literal (info 5 int) (.integer 1)),
    found, .invocation (info 11 none) Chain.visitor none [⟨none, ref 10 "u", .ref⟩],
    .ret (info 14 int) (some (.fieldRef (info 13 int) (some (ref 12 "x")) number))]

/-- The body is run as usual, and no call is followed. -/
def context {V : Type} : Context V := Context.start graph Config.usual fun _ => none

/-- Where the references of the body point. -/
def objects : Option (Solution PointsTo) := ((pointsTo.solve context).run (Ledger.start false)).1.toOption

/-- The variable with the node that was found. -/
def holder : Entity := .localVar (Symbol.localVar "u" node) main

/-- The call, when it gets some node. -/
def handOver (kind : RefKind) (v : V) : Call V :=
  ⟨.invocation (info 11 none) Chain.visitor none [⟨none, ref 10 "u", kind⟩], Chain.visitor, none,
    [⟨⟨10⟩, none, kind, some holder, .unknown, v⟩]⟩

end Handing

open Nodes Handing in
/-- If the node itself is handed over, what is in the first one escapes. -/
theorem letsAllEscape_iff_handed : (taint Boxes.rules).LetsEscape Config.usual (handOver .value .unknown)
    (machine (State.empty.insert (entity number 1) .notTainted) true) (entity number 1) := by
  obtain ⟨-, -, taint, -⟩ := letsAllEscape_iff Boxes.rules Config.usual
  exact (taint (handOver .value .unknown)).2 (.inr (by decide +kernel)) _ (fun _ _ _ => trivial) (entity number 1)
    (by decide +kernel) rfl

open Nodes Handing in
/-- The variable may hold any node before unknown code gets it by reference. Yet after that the first node contains one
and nothing else. -/
theorem not_letsAllEscape_handed :
    (∃ p, objects = some p ∧ p.valueAt ⟨10⟩ = some .unknown) ∧
    ∃ c ledger t, (contents.solve { context with pointsTo := objects }).run (Ledger.start false) = (.ok c, ledger) ∧
      c.stateBefore ⟨14⟩ = some t ∧ (t.find? (entity number 1)).isSome = true ∧
        Content.merge (contents.escapedValue (entity number 1)) (State.valueOr Domain.contents t (entity number 1)) ≠
          State.valueOr Domain.contents t (entity number 1) := by
  constructor
  · have held : (objects.bind fun p => p.valueAt ⟨10⟩) = some .unknown := by decide +kernel
    exact Option.bind_eq_some_iff.1 held
  · have kept : (((contents.solve { context with pointsTo := objects }).run (Ledger.start false)).1.toOption.bind fun c =>
        (c.stateBefore ⟨14⟩).map fun t => t.find? (entity number 1)) = some (some (.ofLiteral (.integer 1))) := by
      decide +kernel
    obtain ⟨c, ledger, t, h, ht, kept⟩ := exists_of_inspected kept
    refine ⟨c, ledger, t, h, ht, by rw [kept]; rfl, ?_⟩
    rw [State.valueOr_of_find? _ kept]
    decide +kernel

end Analysis

end Dataflow
