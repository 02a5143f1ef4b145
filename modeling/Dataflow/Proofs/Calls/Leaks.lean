import Dataflow.Proofs.Calls.Escape
import Dataflow.Proofs.Visit.Names

/-!
# What callees leave of their own

A callee that was analysed in the context of a call hands the facts about its heap back to the caller. Objects that hang
off its own variables or its receiver mean nothing there. A filter drops what belongs to them, but it looks at the owner of
an entity only, and an entity may hang off a variable through several objects.

## The notions

* `Entity.HangsOff`: an entity belongs, through any number of objects, to what storage of a method held in the beginning.
* `State.Adds`: an entity is tracked in the second of two states only.
* `Analysis.Seals`: of the entities that come to be tracked, none hangs off the callee's storage.

## What is proved

After a call the caller tracks what it tracked before, the storage that it passed by reference, and what the filter lets
through (`Analysis.adds_takenBack_iff`). So nothing of the callee's own gets to the caller exactly if the storage passed by
reference is not of that kind, and all new entities of that kind that the callee leaves belong to the callee's storage
without other objects in between (`Analysis.pointsTo_seals_iff`).
-/

namespace Dataflow

variable {V : Type}

/-! ### Chains of objects -/

namespace Entity

/-- It belongs to an object that storage of a method held in the beginning, or that such an entity held, and so on. -/
inductive HangsOff (method : Symbol) : Entity → Prop where
  /-- The object was held by storage of the method. -/
  | own {e o : Entity} : .entity o ∈ e.owner.locations → o.method? = some method → HangsOff method e
  /-- The object was held by an entity that hangs off such storage. -/
  | nested {e o : Entity} : .entity o ∈ e.owner.locations → HangsOff method o → HangsOff method e

variable {e : Entity} {method : Symbol}

theorem mentionsLocalsOf_iff :
    e.mentionsLocalsOf method = true ↔ ∃ o, .entity o ∈ e.owner.locations ∧ o.method? = some method := by
  unfold mentionsLocalsOf
  rw [List.any_eq_true]
  constructor
  · rintro ⟨l, hl, h⟩
    split at h
    · exact ⟨_, hl, eq_of_beq h⟩
    · cases h
  · rintro ⟨o, ho, h⟩
    exact ⟨_, ho, beq_iff_eq.2 h⟩

/-- The filter looks at the first object of a chain. -/
theorem hangsOff_iff :
    e.HangsOff method ↔ e.mentionsLocalsOf method = true ∨ ∃ o, .entity o ∈ e.owner.locations ∧ o.HangsOff method := by
  rw [mentionsLocalsOf_iff]
  constructor
  · rintro (⟨ho, h⟩ | ⟨ho, h⟩)
    · exact .inl ⟨_, ho, h⟩
    · exact .inr ⟨_, ho, h⟩
  · rintro (⟨o, ho, h⟩ | ⟨o, ho, h⟩)
    · exact .own ho h
    · exact .nested ho h

/-- Storage of a method belongs to no object. -/
theorem HangsOff.isMethodLocal (h : e.HangsOff method) : e.isMethodLocal = false := by
  obtain ⟨o, ho⟩ : ∃ o, .entity o ∈ e.owner.locations := by
    cases h with
    | own ho _ => exact ⟨_, ho⟩
    | nested ho _ => exact ⟨_, ho⟩
  cases e with
  | member | element => rfl
  | _ => simp [owner, PointsTo.noLocation, PointsTo.locations] at ho

end Entity

/-- The entity is tracked in the second state only. -/
def State.Adds (before after : State V) (e : Entity) : Prop :=
  before.find? e = none ∧ (after.find? e).isSome = true

namespace Analysis

/-! ### Back to the caller -/

variable [DecidableEq V] {A : Analysis V} {ctx : Context V} {call : Call V} {sol : Solution V} {s : State V} {e : Entity}

/-- The caller's state when a callee that was analysed in the context of the call has come back. -/
def takenBack (A : Analysis V) (call : Call V) (sol : Solution V) (s : State V) : State V :=
  let s := State.writeAll A.domain (A.passedBack call sol true) s
  sol.finish.elim s fun exit => State.writeAll A.domain (news sol.owner exit s) s

theorem run_comeBack (plain : A.write = fun e v s => .ok (State.write A.domain e v s)) (m : Machine V) :
    ExceptT.run (A.comeBack ctx call sol true) m =
      (.ok (A.returnedValue true (sol.returned.getD (A.unknownValue call.operation))),
        { m with state := A.takenBack call sol m.state }) := by
  unfold comeBack takenBack
  rw [Visit.run_bind, run_storeAll plain]
  dsimp only
  cases sol.finish with
  | none => rfl
  | some exit =>
    have read (m : Machine V) : ExceptT.run (Visit.state : Visit V (State V)) m = (.ok m.state, m) := rfl
    rw [if_pos rfl, Visit.run_bind, read]
    dsimp only
    rw [Visit.run_bind, run_storeAll plain]
    rfl

/-- News are about what the callee tracks, has no place for, and belongs to none of its own objects. -/
theorem mem_news_iff {callee : Symbol} {exit : State V} :
    e ∈ (news callee exit s).map (·.1) ↔
      e.isMethodLocal = false ∧ e.mentionsLocalsOf callee = false ∧ ∃ v, exit.find? e = some v ∧ s.find? e ≠ some v := by
  simp only [news, List.mem_map, List.mem_filter, Prod.exists, FinMap.mem_entries, Bool.and_eq_true, bne_iff_ne,
    Bool.not_eq_eq_eq_not, Bool.not_true]
  constructor
  · rintro ⟨f, v, ⟨hv, ⟨own, filter⟩, new⟩, rfl⟩
    exact ⟨own, filter, v, hv, new⟩
  · rintro ⟨own, filter, v, hv, new⟩
    exact ⟨e, v, ⟨hv, ⟨own, filter⟩, new⟩, rfl⟩

/-- What comes to be tracked is what is passed by reference and what the callee leaves and the filter lets through. -/
theorem adds_takenBack_iff : State.Adds s (A.takenBack call sol s) e ↔ s.find? e = none ∧
    (e ∈ (A.passedBack call sol true).map (·.1) ∨ ∃ exit, sol.finish = some exit ∧ (exit.find? e).isSome = true ∧
      e.isMethodLocal = false ∧ e.mentionsLocalsOf sol.owner = false) := by
  refine and_congr_right fun untracked => ?_
  unfold takenBack
  have given := State.isSome_find?_writeAll A.domain (A.passedBack call sol true) s e
  simp only [untracked, Option.isSome_none, Bool.false_eq_true, false_or] at given
  cases sol.finish with
  | none => simpa using given
  | some exit =>
    simp only [Option.elim_some, Option.some.injEq, exists_eq_left', State.isSome_find?_writeAll, given, mem_news_iff]
    refine or_congr_right' fun notGiven => ?_
    have held : (State.writeAll A.domain (A.passedBack call sol true) s).find? e = none := by
      rwa [← Option.not_isSome_iff_eq_none, given]
    rw [held]
    constructor
    · rintro ⟨own, filter, v, hv, -⟩
      exact ⟨by rw [hv]; rfl, own, filter⟩
    · rintro ⟨tracked, own, filter⟩
      obtain ⟨v, hv⟩ := Option.isSome_iff_exists.1 tracked
      exact ⟨own, filter, v, hv, by simp⟩

/-! ### What hangs off the callee -/

/-- No entity that the caller tracks only after the call hangs off storage of the callee. -/
def Seals (callee : Symbol) (before after : State V) : Prop :=
  ∀ e, State.Adds before after e → ¬ e.HangsOff callee

theorem seals_takenBack_iff : Seals sol.owner s (A.takenBack call sol s) ↔ ∀ e, s.find? e = none → e.HangsOff sol.owner →
    e ∉ (A.passedBack call sol true).map (·.1) ∧
      ∀ exit, sol.finish = some exit → (exit.find? e).isSome = true → e.mentionsLocalsOf sol.owner = true := by
  simp only [Seals, adds_takenBack_iff]
  constructor
  · intro seals e untracked hangs
    refine ⟨fun given => seals e ⟨untracked, .inl given⟩ hangs, fun exit hexit tracked => ?_⟩
    by_contra filter
    exact seals e ⟨untracked, .inr ⟨exit, hexit, tracked, hangs.isMethodLocal, Bool.eq_false_iff.2 filter⟩⟩ hangs
  · rintro spared e ⟨untracked, added⟩ hangs
    obtain ⟨notGiven, direct⟩ := spared e untracked hangs
    obtain ⟨exit, hexit, tracked, -, filter⟩ := added.resolve_left notGiven
    rw [direct exit hexit tracked] at filter
    cases filter

/-- In the points-to analysis nothing that hangs off a callee's own storage comes to be tracked by its caller exactly if no
untracked entity of that kind is passed by reference, and the callee leaves none except those that belong to objects which
its own storage held. -/
theorem pointsTo_seals_iff (ctx : Context PointsTo) (call : Call PointsTo) (sol : Solution PointsTo) (m : Machine PointsTo) :
    ∃ v m', ExceptT.run (pointsTo.comeBack ctx call sol true) m = (.ok v, m') ∧
      (Seals sol.owner m.state m'.state ↔ ∀ e, m.state.find? e = none → e.HangsOff sol.owner →
        e ∉ (pointsTo.passedBack call sol true).map (·.1) ∧
          ∀ exit, sol.finish = some exit → (exit.find? e).isSome = true → e.mentionsLocalsOf sol.owner = true) :=
  ⟨_, _, run_comeBack rfl m, seals_takenBack_iff⟩

/-! ### A callee that follows its receiver -/

namespace Depth

open Nodes

/-- The callee. -/
def descend : Symbol := Symbol.method "Node" "descend" none

/-- The field with the next node. -/
def next : Symbol := ⟨"next", .field, node, some "Node", .value, 0⟩

/-- Stores a number into the node that comes after the receiver. -/
def callee : Graph :=
  ⟨descend, [], [⟨⟨0⟩, .entry, [.assignment (info 5 int)
    (.fieldRef (info 3 int) (some (.fieldRef (info 2 node) (some (.receiverRef (info 1 node))) next)) number)
    (.literal (info 4 int) (.integer 1))], none, [⟨⟨1⟩, .regular⟩], []⟩, .bare ⟨1⟩ .exit]⟩

/-- Calls it without saying on which node. -/
def context : Context PointsTo :=
  Context.start (body [.invocation (info 0 none) descend none []])
    { Config.usual with calls := CallConfig.usual .inContext } fun m => if m = descend then some callee else none

/-- The node after the receiver. -/
def second : Entity := .member next (.known [.entity (.receiver descend)] .notNull)

/-- The number in it. -/
def leaked : Entity := .member number (.known [.entity second] .maybeNull)

theorem leaked_hangsOff : leaked.HangsOff descend :=
  .nested (o := second) List.mem_cons_self (.own (o := .receiver descend) List.mem_cons_self rfl)

end Depth

open Nodes Depth in
/-- The callee stores into the node after its receiver, which the call does not name, and the caller tracks the number in
that node from then on. -/
theorem not_pointsTo_seals : ∃ sol ledger inner before after,
    (pointsTo.solve context).run (Ledger.start false) = (.ok sol, ledger) ∧ sol.calleeAt ⟨0⟩ = some inner ∧
    inner.owner = descend ∧ sol.stateBefore ⟨0⟩ = some before ∧ sol.finish = some after ∧
    ¬ Seals descend before after := by
  obtain ⟨sol, ledger, ⟨inner, before, after⟩, hrun, found, held⟩ := exists_of_inspected
    (r := (pointsTo.solve context).run (Ledger.start false))
    (g := fun sol => (sol.calleeAt ⟨0⟩).bind fun inner => (sol.stateBefore ⟨0⟩).bind fun before =>
      sol.finish.map fun after => (inner, before, after))
    (f := fun q => (q.1.owner, q.2.1.find? leaked, (q.2.2.find? leaked).isSome))
    (y := (descend, none, true)) (by decide +kernel)
  obtain ⟨_, hinner, found⟩ := Option.bind_eq_some_iff.1 found
  obtain ⟨_, hbefore, found⟩ := Option.bind_eq_some_iff.1 found
  obtain ⟨_, hafter, found⟩ := Option.map_eq_some_iff.1 found
  cases found
  obtain ⟨owner, held⟩ := Prod.mk.inj held
  obtain ⟨untracked, tracked⟩ := Prod.mk.inj held
  exact ⟨sol, ledger, inner, before, after, hrun, hinner, owner, hbefore, hafter,
    fun seals => seals leaked ⟨untracked, tracked⟩ leaked_hangsOff⟩

end Analysis

end Dataflow
