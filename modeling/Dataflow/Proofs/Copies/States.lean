import Dataflow.Proofs.Accord.Moments
import Dataflow.Proofs.Copies.Soundness

/-!
# All states of the copy analysis

Every state that the copy analysis ever holds is a partition, whatever storage is written to: fields and
elements, whose writes detach what may be the same storage, and entities of unknown objects, which stay
alone.

## What is proved

Nothing but writes and the ends of scopes changes states, and a callee starts with every entity alone
(`classOf_calleeEntry`). So what these keep holds at all moments of all runs, those over callees included
(`Lasting.holds`); in particular all states are partitions (`copies_hold_partitions`).
-/

namespace Dataflow

namespace Analysis.CopyAnalysis

variable {s s' t : State CopyClass} {e a : Entity} {ctx : Context CopyClass}

/-- Every tracked entity has a known class that it is in, and all members of the class have that class. -/
def Consistent (s : State CopyClass) : Prop :=
  ∀ e c, s.find? e = some c → ∃ members, c = .known members ∧ e ∈ members ∧
    ∀ m ∈ members, State.valueOr Domain.copies s m = .known members

theorem Partition.consistent (h : Partition s) : Consistent s := by
  intro e c hc
  obtain ⟨members, hclass, hself, hall⟩ := h e
  rw [classOf, State.valueOr_of_find? Domain.copies hc] at hclass
  exact ⟨members, hclass, hself, hall⟩

/-- Inserting an entity that is alone changes no class if every entity is alone. -/
theorem alone_insert (h : ∀ a, classOf a s = .singleton a) (e a : Entity) :
    classOf a (s.insert e (.singleton e)) = .singleton a := by
  by_cases ha : a = e
  · rw [ha, classOf_insert_self]
  · rw [classOf_insert_ne s _ ha, h]

/-- What the caller knows about copies does not reach a callee. -/
theorem classOf_calleeEntry (call : Call CopyClass) (callee : Graph) (s : State CopyClass) (a : Entity) :
    classOf a (copies.calleeEntry call callee s) = .singleton a := by
  refine Analysis.calleeEntry_induction (P := fun t => ∀ a, classOf a t = .singleton a) ?_ ?_ a
  · exact fun a => State.valueOr_empty _ _
  · exact fun t e _ _ ht => alone_insert ht e

/-- In a body that arises in a run every entity is alone at first. -/
theorem classOf_of_arises (h : copies.Arises ctx) {s : State CopyClass} (hs : copies.initialState ctx = .ok s)
    (a : Entity) : classOf a s = .singleton a := by
  cases entry : ctx.entry with
  | none => exact classOf_initialState entry hs a
  | some t =>
    unfold initialState at hs
    rw [entry] at hs
    obtain rfl := Except.ok.inj hs
    cases h with
    | start _ none =>
      rw [none] at entry
      cases entry
    | summary => cases entry
    | inContext _ callee site call t =>
      obtain rfl := Option.some.inj entry
      exact classOf_calleeEntry call callee t a

/-! ### All runs -/

/-- Something holds of states in which every entity is alone, and all that the analysis does to states keeps it. -/
structure Lasting (P : State CopyClass → Prop) : Prop where
  /-- At first every entity is alone. -/
  alone : ∀ {s}, (∀ a, classOf a s = .singleton a) → P s
  /-- Writes keep it. -/
  write : ∀ {s t e c}, P s → CopyAnalysis.write e c s = .ok t → P t
  /-- The ends of scopes keep it. -/
  forget : ∀ {s t e}, P s → CopyAnalysis.forget e s = .ok t → P t
  /-- It holds where control flows together if it holds on both paths. -/
  merge : ∀ {s t}, P s → P t → P (State.merge Domain.copies s t)

/-- Something holds of states. -/
def holding (P : State CopyClass → Prop) : Accord CopyClass := ⟨P, fun _ => True, fun _ => True, fun _ _ => True⟩

namespace Lasting

variable {P : State CopyClass → Prop} (L : Lasting P)
include L

theorem hooks (ctx : Context CopyClass) : (holding P).Hooks copies copies ctx where
  bottom := trivial
  unknown := fun _ => trivial
  literal := fun _ _ => trivial
  captured := fun _ _ _ => trivial
  reference := by
    intro op e
    cases e with
    | none => exact Accord.agree_pure trivial
    | some e => exact Accord.agree_state_bind fun _ _ => Accord.agree_pure trivial
  assign := by
    intro op e v _
    cases e with
    | none => exact Accord.agree_pure trivial
    | some e =>
      refine (Accord.agree_update fun s (hs : P s) => ⟨rfl, fun t ht => L.write hs ht, fun _ _ _ _ => trivial⟩).bind fun _ _ => ?_
      exact Accord.agree_state_bind fun _ _ => Accord.agree_pure trivial
  create := fun _ _ _ => Accord.agree_pure trivial
  createArray := fun _ => Accord.agree_pure trivial
  binary := fun _ _ _ _ _ _ => Accord.agree_pure trivial
  convert := fun _ _ _ => Accord.agree_pure trivial
  invoke := fun _ _ usuals call takes => usuals call takes
  forget := fun _ _ hs => ⟨rfl, fun _ ht => L.forget hs ht, fun _ _ _ _ => trivial⟩
  cancelled := fun _ _ => trivial

theorem passes : (holding P).Passes copies copies where
  write := fun _ _ _ hs _ => ⟨rfl, fun _ ht => L.write hs ht, fun _ _ _ _ => trivial⟩
  escaped := fun _ => trivial
  value := fun _ _ _ => trivial
  mentioned := fun _ _ _ _ _ => trivial
  summary := fun _ _ => trivial
  cancel := fun _ _ => trivial

theorem joins (arises : copies.Arises ctx) : (holding P).Joins copies ctx where
  empty := L.alone fun _ => State.valueOr_empty _ _
  initial := ⟨rfl, fun _ hs => L.alone (classOf_of_arises arises hs), fun _ _ _ _ => trivial⟩
  merge := fun _ _ hs ht => L.merge hs ht
  widen := fun s t hs ht => (widen_eq_merge s t).symm ▸ L.merge hs ht
  returned := fun _ _ _ _ => trivial
  endless := fun _ _ => trivial

/-- Whatever solves callees, calls do no more than writes: nothing that is known about a callee is used. -/
theorem handles (ctx : Context CopyClass) (deeper : Option (Context CopyClass → Run CopyClass (Solution CopyClass))) :
    (holding P).Handles (copies.handleCall ctx deeper) (copies.handleCall ctx deeper) := by
  refine Accord.handleCall_agrees (L.hooks ctx) L.passes ?_
  cases deeper with
  | none => trivial
  | some solve =>
    intro call callee _ _ _
    have found : ∀ filed file r, (holding P).Agree (Analysis.solution? ctx filed file callee r)
        (Analysis.solution? ctx filed file callee r)
        fun found => ∀ sol, found = some sol → copies.crossesCalls = true →
          sol.Lasts (holding P).state (holding P).value := by
      intro filed file r
      refine Accord.solution_agrees (fun _ _ _ _ h => by cases h) (fun _ _ _ _ => trivial) fun _ ledger _ _ _ => ⟨rfl, ?_⟩
      rcases ExceptT.run r ledger with ⟨e | sol, after⟩
      · trivial
      · exact ⟨trivial, fun h => by cases h⟩
    cases ctx.config.calls.handling == .inContext with
    | true => exact Accord.agree_state_bind fun _ _ => found _ _ _
    | false => exact found _ _ _

theorem usuals (ctx : Context CopyClass) : (holding P).Handles (copies.usualIn ctx) (copies.usualIn ctx) := by
  unfold usualIn
  split
  · exact L.handles ctx none
  · exact L.handles ctx (some _)

/-- It holds at all moments. -/
theorem holds (arises : copies.Arises ctx) {ledger : Ledger CopyClass} {s : State CopyClass}
    (h : copies.Holds ctx ledger s) : P s :=
  Accord.state_of_holds (L.hooks ctx) (L.joins arises) (L.usuals ctx) trivial h

/-- It holds of the states that a solution keeps. -/
theorem lasts (arises : copies.Arises ctx) {ledger ledger' : Ledger CopyClass} {sol : Solution CopyClass}
    (h : (copies.solve ctx).run ledger = (.ok sol, ledger')) : sol.Lasts P fun _ => True := by
  have concludes : (holding P).Concludes (copies.solve ctx) (copies.solve ctx)
      (fun sol => sol.Lasts P (fun _ => True) ∧ sol.graph = ctx.graph) ledger := by
    rw [solve_eq_solveBody]
    exact Accord.solveBody_agrees (L.hooks ctx) (L.joins arises) (L.usuals ctx) trivial
  obtain ⟨-, ends⟩ := concludes
  rw [h] at ends
  exact ends.2.1

end Lasting

/-- States are partitions. -/
theorem partition_lasting : Lasting Partition where
  alone := partition_of_singletons
  write := Partition.write
  forget := Partition.forget
  merge := Partition.merge

end Analysis.CopyAnalysis

namespace Analysis

/-- In every state that a copy analysis holds at any moment of any run, its callees' runs included, every tracked
entity is in its class, which is known, and all members of the class have that class. In particular this holds at the
starts and ends of blocks and before operations in every solution. -/
theorem copies_hold_partitions {ctx : Context CopyClass} (arises : copies.Arises ctx) (ledger : Ledger CopyClass) :
    (∀ s, copies.Holds ctx ledger s → CopyAnalysis.Consistent s) ∧
      ∀ sol ledger', (copies.solve ctx).run ledger = (.ok sol, ledger') →
        (∀ b s, sol.entries.find? b = some s → CopyAnalysis.Consistent s) ∧
          (∀ b s, sol.exits.find? b = some s → CopyAnalysis.Consistent s) ∧
            ∀ op s, sol.before.find? op = some s → CopyAnalysis.Consistent s := by
  refine ⟨fun s hs => (CopyAnalysis.partition_lasting.holds arises hs).consistent, fun sol ledger' h => ?_⟩
  have lasts := CopyAnalysis.partition_lasting.lasts arises h
  exact ⟨fun b s hs => (lasts.entries b s hs).consistent, fun b s hs => (lasts.exits b s hs).consistent,
    fun op s hs => (lasts.before op s hs).consistent⟩

open StoredParameters in
/-- At the end of a block that stores two parameters each of them is in a class with the local that it is stored
into. -/
theorem copies_hold_partitions_storedParameters :
    ∃ s, copies.Holds (context 3) (Ledger.start false) s ∧ CopyAnalysis.Consistent s ∧
      s.find? (.localVar TwoStores.first (graph 3).owner) =
        some (.known (FinSet.ofList [.localVar TwoStores.first (graph 3).owner, .localVar (parameter "p") (graph 3).owner])) := by
  obtain ⟨sol, ledger, s, h, hs, hclass⟩ : ∃ sol ledger s,
      (copies.solve (context 3)).run (Ledger.start false) = (.ok sol, ledger) ∧ sol.exits.find? ⟨0⟩ = some s ∧
        s.find? (.localVar TwoStores.first (graph 3).owner) = some (.known (FinSet.ofList
          [.localVar TwoStores.first (graph 3).owner, .localVar (parameter "p") (graph 3).owner])) :=
    exists_of_inspected (by decide +kernel)
  obtain ⟨initial, p, m, start, between, rfl⟩ := exists_between_of_solve h
  have held : copies.Holds (context 3) (Ledger.start false) s := .exit start between hs
  exact ⟨s, held, (copies_hold_partitions (.start rfl rfl) _).1 s held, hclass⟩

end Analysis

end Dataflow
