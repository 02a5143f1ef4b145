import Dataflow.Analysis.Calls
import Dataflow.Proofs.Contracts.Analyses
import Dataflow.Proofs.State.Order
import Dataflow.Proofs.Variables.Boundary

/-!
# The effects of calls in any order

A call writes to several entities: to those that escape, or to those that a callee in context leaves
something new in. They are taken from sets, which have no order.

## The notions

* `Analysis.escapes`: the writes by which things escape at a call.
* `Analysis.Unordered`: writes that come to the same in any order.

## What is proved

For each analysis it is said exactly when the effects of a call are unordered (`Analysis.effects_unordered`).
What escapes is unordered if the analysis has one value for all of it, as those of literal content and of taint have.
What a callee leaves need not be: two elements of one array may alias, and the one that is written to first gains what
the other one holds.
-/

namespace Dataflow

namespace Analysis

variable {V : Type} (A : Analysis V)

/-- The writes by which things escape at a call. -/
def escapes (config : Config) (call : Call V) (s : State V) : List (Entity × V) :=
  (A.escaped config call s).map fun e => (e, A.escapedValue e)

/-- The writes come to the same in any order. -/
def Unordered (l : List (Entity × V)) (s : State V) : Prop :=
  ∀ l', l.Perm l' → ∀ m : Machine V, m.state = s → ExceptT.run (A.storeAll l') m = ExceptT.run (A.storeAll l) m

/-- Things escape by these writes. -/
example (config : Config) (call : Call V) :
    A.escapeReachable config call = Visit.state >>= fun s => A.storeAll (A.escapes config call s) := rfl

variable {A} {P : V → Prop} {s : State V} {l : List (Entity × V)}

theorem run_storeAll (plain : A.write = fun e v s => .ok (State.write A.domain e v s)) (l : List (Entity × V))
    (m : Machine V) :
    ExceptT.run (A.storeAll l) m = (.ok ⟨⟩, { m with state := State.writeAll A.domain l m.state }) := by
  induction l generalizing m with
  | nil => rfl
  | cons x l ih =>
    have first : ExceptT.run (A.store x.1 x.2) m =
        (.ok ⟨⟩, { m with state := State.write A.domain x.1 x.2 m.state }) := by
      unfold store
      rw [plain]
      rfl
    rw [storeAll, List.forM_eq_forM, List.forM_cons, Visit.run_bind, first]
    exact ih _

/-- Writes of an analysis that has no writes of its own are unordered if they are settled. -/
theorem unordered_iff (plain : A.write = fun e v s => .ok (State.write A.domain e v s))
    (law : IsSemilattice P A.domain.merge A.domain.top) (missing : ∀ e, P (A.domain.missing e)) (hs : s.Each P)
    (hl : ∀ x ∈ l, P x.2) (nodup : (l.map (·.1)).Nodup) : A.Unordered l s ↔ State.Settled A.domain s l := by
  rw [← State.writeAll_perm_iff law missing hs hl nodup]
  constructor
  · intro h l' p
    have same := h l' p ⟨s, Notes.start (Resolver.start (Symbol.method "" "" none) false), Ledger.start false⟩ rfl
    rw [run_storeAll plain, run_storeAll plain] at same
    exact congrArg (fun r => r.2.state) same
  · rintro h l' p m rfl
    rw [run_storeAll plain, run_storeAll plain, h l' p]

/-! ### What escapes -/

/-- Whether something is exposed does not depend on the order of the objects. -/
theorem isExposed_congr (everything : Bool) {objects objects' : List Location} (h : objects.Perm objects') :
    isExposed everything objects = isExposed everything objects' := by
  funext e
  have contains : objects.contains = objects'.contains := funext fun l => h.contains_eq
  rw [isExposed, isExposed, contains]

/-- What is reached does not depend on the order of the candidates. -/
theorem closure_perm (everything : Bool) (s : State V) (rounds : Nat) {objects objects' : List Location}
    (hobjects : objects.Perm objects') {candidates candidates' : List Entity} (h : candidates.Perm candidates') :
    (A.closure everything s rounds objects candidates).Perm (A.closure everything s rounds objects' candidates') := by
  induction rounds generalizing objects objects' candidates candidates' with
  | zero => exact .nil
  | succ rounds ih =>
    rw [closure, closure, List.partition_eq_filter_filter, List.partition_eq_filter_filter,
      isExposed_congr everything hobjects]
    have reached := h.filter (isExposed everything objects')
    have others := h.filter fun e => !isExposed everything objects' e
    simp only [Function.comp_def]
    revert reached
    generalize candidates.filter (isExposed everything objects') = l,
      candidates'.filter (isExposed everything objects') = l'
    intro reached
    cases l with
    | nil =>
      obtain rfl := reached.nil_eq
      exact .nil
    | cons e l =>
      cases l' with
      | nil => cases reached.eq_nil
      | cons e' l' => exact reached.append (ih (hobjects.append (reached.flatMap_right _)) others)

/-- What escapes is the same in whichever order the candidates are taken. -/
theorem escaped_perm (config : Config) (call : Call V) (s : State V) {candidates : List Entity}
    (h : candidates.Perm (s.entities.filter fun e => !e.isMethodLocal)) :
    (A.closure (escapesAll config call) s candidates.length (roots call) candidates).Perm
      (A.escaped config call s) := by
  rw [h.length_eq]
  exact closure_perm _ s _ (.refl _) h

theorem nodup_closure (everything : Bool) (s : State V) (rounds : Nat) (objects : List Location)
    {candidates : List Entity} (h : candidates.Nodup) : (A.closure everything s rounds objects candidates).Nodup := by
  induction rounds generalizing objects candidates with
  | zero => exact .nil
  | succ rounds ih =>
    rw [closure, List.partition_eq_filter_filter]
    split
    · exact .nil
    · rename_i reached others hp
      obtain ⟨rfl, rfl⟩ := Prod.mk.inj hp
      refine List.nodup_append.2 ⟨h.filter _, ih _ (h.filter _), fun a ha b hb hab => ?_⟩
      have out := (List.mem_filter.1 (mem_of_mem_closure hb)).2
      rw [← hab] at out
      simp [(List.mem_filter.1 ha).2] at out

theorem nodup_escaped (config : Config) (call : Call V) (s : State V) : (A.escaped config call s).Nodup :=
  nodup_closure _ _ _ _ ((State.nodup_entities s).filter _)

theorem nodup_escapes (config : Config) (call : Call V) (s : State V) :
    ((A.escapes config call s).map (·.1)).Nodup := by
  rw [escapes, List.map_map]
  exact (nodup_escaped config call s).map fun _ _ h => h

/-- What escapes is mentioned. -/
theorem find?_ne_none_of_mem_escaped {config : Config} {call : Call V} {e : Entity} (h : e ∈ A.escaped config call s) :
    s.find? e ≠ none := by
  have := FinMap.mem_keys.1 (FinSet.mem_toList.1 (List.mem_filter.1 (mem_of_mem_closure h)).1)
  exact Option.isSome_iff_ne_none.1 this

/-- What escapes was mentioned before; so only entities that name one cell have something to lose. -/
theorem settled_escapes_iff {config : Config} {call : Call V} :
    State.Settled A.domain s (A.escapes config call s) ↔
      ∀ e ∈ A.escaped config call s, ∀ f ∈ A.escaped config call s, e ≠ f → f.mayAlias e = true →
        e.hasUnknownOwner = false → A.domain.merge (A.escapedValue e) (A.escapedValue f) = A.escapedValue e := by
  constructor
  · intro h e he f hf hne halias known
    have := h _ (List.mem_map_of_mem he) _ (List.mem_map_of_mem hf) hne halias fun unknown => by simp [known] at unknown
    simpa [State.fresh, known] using this
  · intro h x hx y hy hne halias tracked
    obtain ⟨e, he, rfl⟩ := List.mem_map.1 hx
    obtain ⟨f, hf, rfl⟩ := List.mem_map.1 hy
    cases known : e.hasUnknownOwner with
    | true => exact absurd (tracked known) (find?_ne_none_of_mem_escaped he)
    | false => simpa [State.fresh, known] using h e he f hf hne halias known

/-! ### What a callee leaves -/

theorem nodup_news [DecidableEq V] (callee : Symbol) (exit caller : State V) :
    ((news callee exit caller).map (·.1)).Nodup :=
  (State.nodup_entities exit).sublist (List.filter_sublist.map _)

theorem news_values [DecidableEq V] (callee : Symbol) {exit : State V} (caller : State V) (h : exit.Each P) :
    ∀ x ∈ news callee exit caller, P x.2 :=
  fun x hx => h x.1 x.2 (FinMap.mem_entries.1 (List.mem_filter.1 hx).1)

/-! ### The analyses -/

/-- References that escape point anywhere, and what else escapes points nowhere. -/
theorem merge_unknown_eq_iff (r r' : Bool) :
    PointsTo.merge (PointsToAnalysis.unknown r) (PointsToAnalysis.unknown r') = PointsToAnalysis.unknown r ↔
      (r' = true → r = true) := by
  cases r <;> cases r' <;> decide +kernel

/-- The same things escape at a call in whichever order the entities are taken that may escape. The effects of a call
come to the same in any order
* of the taint analysis and that of literal content, if they are that things escape;
* of the points-to analysis, if they are that things escape, exactly if no entity that names one cell and holds no
  references has an alias among them that holds references;
* of each analysis, if they are what a callee in context leaves, exactly if that is settled. -/
theorem effects_unordered (rules : TaintRules) (config : Config) (callee : Symbol) :
    (∀ (V : Type) (A : Analysis V) call s candidates, candidates.Perm (s.entities.filter fun e => !e.isMethodLocal) →
      (A.closure (escapesAll config call) s candidates.length (roots call) candidates).Perm (A.escaped config call s)) ∧
    (∀ call s, (taint rules).Unordered ((taint rules).escapes config call s) s) ∧
    (∀ call s, s.Each Content.IsSmall → contents.Unordered (contents.escapes config call s) s) ∧
    (∀ call s, s.Each PointsTo.Valid → (pointsTo.Unordered (pointsTo.escapes config call s) s ↔
      ∀ e ∈ pointsTo.escaped config call s, ∀ f ∈ pointsTo.escaped config call s, f.mayAlias e = true →
        e.hasUnknownOwner = false → f.isReference = true → e.isReference = true)) ∧
    (∀ exit s, (taint rules).Unordered (news callee exit s) s ↔ State.Settled Domain.taint s (news callee exit s)) ∧
    (∀ exit s, exit.Each Content.IsSmall → s.Each Content.IsSmall →
      (contents.Unordered (news callee exit s) s ↔ State.Settled Domain.contents s (news callee exit s))) ∧
    (∀ exit s, exit.Each PointsTo.Valid → s.Each PointsTo.Valid →
      (pointsTo.Unordered (news callee exit s) s ↔ State.Settled Domain.pointsTo s (news callee exit s))) := by
  refine ⟨fun _ _ call s _ h => escaped_perm config call s h, fun call s => ?_, fun call s hs => ?_, fun call s hs => ?_,
    fun exit s => ?_, fun exit s hexit hs => ?_, fun exit s hexit hs => ?_⟩
  · refine (unordered_iff rfl taint_isSemilattice (fun _ => trivial) (fun _ _ _ => trivial) (fun _ _ => trivial)
      (nodup_escapes _ _ _)).2 (settled_escapes_iff.2 fun _ _ _ _ _ _ _ => rfl)
  · refine (unordered_iff rfl Content.isSemilattice missingContent_isSmall hs (fun x hx => ?_) (nodup_escapes _ _ _)).2
      (settled_escapes_iff.2 fun _ _ _ _ _ _ _ => Content.merge_self Content.any)
    obtain ⟨e, -, rfl⟩ := List.mem_map.1 hx
    exact Content.any_isSmall
  · rw [unordered_iff rfl PointsTo.isSemilattice PointsTo.missingPointsTo_valid hs _ (nodup_escapes _ _ _),
      settled_escapes_iff]
    · refine forall₂_congr fun e _ => forall₂_congr fun f _ => ?_
      constructor
      · intro h halias known
        by_cases hne : e = f
        · exact fun hf => hne ▸ hf
        · exact (merge_unknown_eq_iff _ _).1 (h hne halias known)
      · exact fun h _ halias known => (merge_unknown_eq_iff _ _).2 (h halias known)
    · intro x hx
      obtain ⟨e, -, rfl⟩ := List.mem_map.1 hx
      exact unknown_valid _
  · exact unordered_iff rfl taint_isSemilattice (fun _ => trivial) (fun _ _ _ => trivial) (fun _ _ => trivial)
      (nodup_news _ _ _)
  · exact unordered_iff rfl Content.isSemilattice missingContent_isSmall hs (news_values _ _ hexit) (nodup_news _ _ _)
  · exact unordered_iff rfl PointsTo.isSemilattice PointsTo.missingPointsTo_valid hs (news_values _ _ hexit)
      (nodup_news _ _ _)

/-! ### Elements of one array -/

namespace Elements

/-- The caller. -/
def main : Symbol := Symbol.method "C" "main" none

/-- The callee. -/
def callee : Symbol := Symbol.method "C" "fill" none

/-- An element of the array that the caller got as a parameter. -/
def element (position : ElementIndex) : Entity :=
  .element (.known [.entity (.localVar (Symbol.localVar "a" none) main)] .maybeNull) [position] (some (.value "int"))

/-- Positions that static fields hold. -/
def position (name : String) : ElementIndex :=
  .entity (.member ⟨name, .staticField, some (.value "int"), some "C", .value, 0⟩ PointsTo.noLocation)

/-- What the callee leaves in two elements: one of some numbers in each. -/
def exit (i j : ElementIndex) : State Content :=
  (State.empty.insert (element i) ⟨FinSet.ofList [.integer 1, .integer 3], .no⟩).insert (element j)
    ⟨FinSet.ofList [.integer 2, .integer 4], .no⟩

theorem exit_each (i j : ElementIndex) : (exit i j).Each Content.IsSmall := by
  have first : Content.IsSmall ⟨FinSet.ofList [.integer 1, .integer 3], .no⟩ := by
    unfold Content.IsSmall
    decide +kernel
  have second : Content.IsSmall ⟨FinSet.ofList [.integer 2, .integer 4], .no⟩ := by
    unfold Content.IsSmall
    decide +kernel
  exact (State.each_empty.insert _ first).insert _ second

end Elements

open Elements in
/-- Elements at two known positions are no aliases; so it does not matter which of them is written to first. -/
theorem effects_unordered_positions :
    contents.Unordered (news callee (exit (.constant 0) (.constant 1)) State.empty) State.empty := by
  obtain ⟨-, -, -, -, -, exits, -⟩ :=
    effects_unordered (TaintRules.ofConfig (KnownTypes.ofList []) TaintConfig.empty) Config.usual callee
  refine (exits (exit (.constant 0) (.constant 1)) State.empty (exit_each _ _) State.each_empty).2 ?_
  unfold State.Settled
  decide +kernel

open Elements in
/-- Elements at positions that fields hold may be the same; so the one that is written to first gains what the other
one holds. -/
theorem not_unordered_fields :
    ¬ contents.Unordered (news callee (exit (position "i") (position "j")) State.empty) State.empty := by
  intro h
  have backwards := h _ (List.reverse_perm _).symm
    ⟨State.empty, Notes.start (Resolver.start main false), Ledger.start false⟩ rfl
  rw [run_storeAll rfl, run_storeAll rfl] at backwards
  have held := congrArg (fun r => (FinMap.find? r.2.state (element (position "i"))).map (·.literals.size)) backwards
  exact absurd held (by decide +kernel)

end Analysis

end Dataflow
