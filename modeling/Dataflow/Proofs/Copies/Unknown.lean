import Dataflow.Proofs.Copies.Escape
import Dataflow.Proofs.Copies.States

/-!
# Copies of entities of unknown objects

A field of an object that is not known stands for many cells. What is a copy of such an entity need not hold what any
one of the cells does, so it should be alone.

## The notions

* `CopyAnalysis.Solitary`: in a state entities of unknown objects have no copies.
* `CopyAnalysis.AtMostOneUnknown`: in a state no class has two entities of unknown objects.
* `CopyAnalysis.Related`: entities of one class are related in some way.

## What is proved

The target of a write joins a class only if its owner is known, but nothing is asked of the class that it joins. So a
write makes copies of an entity of unknown objects exactly if that stands for the class of the value
(`CopyAnalysis.solitary_write_iff`), and no other step of the analysis does. In all states at all moments of all runs,
each class has at most one entity of unknown objects (`copies_hold_atMostOneUnknown`).
-/

namespace Dataflow

/-- A set of two members has another one besides each. -/
theorem FinSet.exists_ne_of_two_le_size {s : FinSet Entity} (h : 2 ≤ s.size) (a : Entity) : ∃ b ∈ s, b ≠ a := by
  by_contra none
  simp only [not_exists, not_and, not_not] at none
  have few : s.toList ⊆ [a] := fun b hb => List.mem_singleton.2 (none b (FinSet.mem_toList.1 hb))
  have short : s.toList.length ≤ [a].length := (List.subperm_of_subset s.nodup_toList few).length_le
  have size : s.toList.length = s.size := rfl
  rw [List.length_singleton] at short
  omega

namespace Analysis.CopyAnalysis

variable {s s' t u : State CopyClass} {e a : Entity} {c : CopyClass} {R : Entity → Entity → Prop}

/-! ### Related members -/

/-- Entities of one class are related. -/
def Related (R : Entity → Entity → Prop) (s : State CopyClass) : Prop := ∀ a b, Together s a b → R a b

/-- A state with smaller classes. -/
theorem Related.anti (hs : Related R s) (refl : ∀ a, R a a) (smaller : ∀ a b, Together t a b → a = b ∨ Together s a b) :
    Related R t := by
  intro a b hab
  rcases smaller a b hab with rfl | hab
  · exact refl a
  · exact hs a b hab

theorem Related.forget (h : Partition s) (hs : Related R s) (refl : ∀ a, R a a)
    (hf : CopyAnalysis.forget e s = .ok t) : Related R t := by
  obtain ⟨u, hdetach, same⟩ := classOf_forget h hf
  refine hs.anti refl fun a b hab => ?_
  rw [Together, same, ← Together, together_detach h hdetach] at hab
  rcases hab with ⟨rfl, rfl⟩ | ⟨-, -, hab⟩
  · exact .inl rfl
  · exact .inr hab

theorem Related.merge (h : Partition s) (h' : Partition t) (hs : Related R s) :
    Related R (State.merge Domain.copies s t) :=
  fun a b hab => hs a b ((together_merge h h').1 hab).1

/-- A write makes classes smaller, and then the target may join the class of the entity that stands for the value. -/
theorem exists_of_write (h : Partition s) (hw : CopyAnalysis.write e c s = .ok t) :
    ∃ u, Partition u ∧ (∀ a b, Together u a b → a = b ∨ Together s a b) ∧
      (t = u ∧ (e.hasUnknownOwner = true ∨ anchor? e c = none) ∨
        e.hasUnknownOwner = false ∧ ∃ a, anchor? e c = some a ∧ CopyAnalysis.join e a u = .ok t) := by
  unfold CopyAnalysis.write at hw
  dsimp only at hw
  obtain ⟨r, hdetach, hw⟩ := Checked.bind_eq_ok.1 hw
  obtain ⟨u, hall, hw⟩ := Checked.bind_eq_ok.1 hw
  obtain ⟨hu, -, together⟩ := together_detachAll (h.detach hdetach) hall
  refine ⟨u, hu, fun a b hab => ?_, ?_⟩
  · rcases (together a b).1 hab with hab | ⟨hab, -, -⟩
    · exact .inl hab
    · rcases (together_detach h hdetach).1 hab with ⟨rfl, rfl⟩ | ⟨-, -, hab⟩
      · exact .inl rfl
      · exact .inr hab
  · cases unknown : e.hasUnknownOwner with
    | true =>
      rw [if_pos unknown] at hw
      exact .inl ⟨(Except.ok.inj hw).symm, .inl rfl⟩
    | false =>
      rw [if_neg (by simp [unknown])] at hw
      cases hanchor : anchor? e c with
      | none =>
        rw [hanchor] at hw
        exact .inl ⟨(Except.ok.inj hw).symm, .inr rfl⟩
      | some a =>
        rw [hanchor] at hw
        exact .inr ⟨rfl, a, rfl, hw⟩

/-! ### Entities of unknown objects -/

/-- Entities of unknown objects have no copies. -/
def Solitary (s : State CopyClass) : Prop :=
  ∀ e c, s.find? e = some c → 2 ≤ c.members.size → ∀ m ∈ c.members, m.hasUnknownOwner = false

/-- No class has two entities of unknown objects. -/
def AtMostOneUnknown (s : State CopyClass) : Prop :=
  ∀ e c, s.find? e = some c → ∀ m ∈ c.members, ∀ n ∈ c.members,
    m.hasUnknownOwner = true → n.hasUnknownOwner = true → m = n

theorem Partition.together_of_find? (h : Partition s) (hc : s.find? e = some c) {m n : Entity} (hm : m ∈ c.members)
    (hn : n ∈ c.members) : Together s m n := by
  obtain ⟨members, hclass, -, hall⟩ := h e
  rw [classOf, State.valueOr_of_find? Domain.copies hc] at hclass
  subst hclass
  rw [Together, hall m hm]
  exact hn

theorem Partition.exists_of_together (h : Partition s) {b : Entity} (hab : Together s a b) (hne : b ≠ a) :
    ∃ c, s.find? a = some c ∧ a ∈ c.members ∧ b ∈ c.members := by
  obtain ⟨c, hc⟩ := Option.isSome_iff_exists.1 (isSome_of_together hab hne)
  have self := h.together_self a
  rw [Together, classOf, State.valueOr_of_find? Domain.copies hc] at hab self
  exact ⟨c, hc, self, hab⟩

theorem Partition.solitary_iff (h : Partition s) : Solitary s ↔ Related (fun a b => a.hasUnknownOwner = true → a = b) s := by
  constructor
  · intro hs a b hab unknown
    by_contra hne
    obtain ⟨c, hc, ha, hb⟩ := h.exists_of_together hab (Ne.symm hne)
    have two : 2 ≤ c.members.size := by
      by_contra few
      exact hne (FinSet.eq_of_size_le_one (by omega) ha hb)
    rw [hs a c hc two a ha] at unknown
    cases unknown
  · intro hs e c hc two m hm
    obtain ⟨n, hn, hne⟩ := FinSet.exists_ne_of_two_le_size two m
    refine Bool.eq_false_of_not_eq_true fun unknown => hne ?_
    exact (hs m n (h.together_of_find? hc hm hn) unknown).symm

theorem Partition.atMostOneUnknown_iff (h : Partition s) : AtMostOneUnknown s ↔
    Related (fun a b => a.hasUnknownOwner = true → b.hasUnknownOwner = true → a = b) s := by
  constructor
  · intro hs a b hab hua hub
    by_contra hne
    obtain ⟨c, hc, ha, hb⟩ := h.exists_of_together hab (Ne.symm hne)
    exact hne (hs a c hc a ha b hb hua hub)
  · intro hs e c hc m hm n hn
    exact hs m n (h.together_of_find? hc hm hn)

/-- What is alone is related to itself only. -/
theorem related_of_alone (refl : ∀ a, R a a) (h : ∀ a, classOf a s = .singleton a) : Related R s := by
  intro a b hab
  rw [Together, h] at hab
  rw [FinSet.mem_singleton.1 hab]
  exact refl a

/-- An entity of known objects that joins a class brings in no entity of unknown objects. -/
theorem atMostOneUnknown_lasting : Lasting fun s => Partition s ∧ AtMostOneUnknown s where
  alone := fun {s} hs => ⟨partition_of_singletons hs,
    (partition_of_singletons hs).atMostOneUnknown_iff.2 (related_of_alone (fun _ _ _ => rfl) hs)⟩
  write := by
    rintro s t e c ⟨h, few⟩ hw
    have ht := h.write hw
    refine ⟨ht, ht.atMostOneUnknown_iff.2 ?_⟩
    obtain ⟨u, hu, smaller, ⟨rfl, -⟩ | ⟨known, a, -, hjoin⟩⟩ := exists_of_write h hw
    · exact (h.atMostOneUnknown_iff.1 few).anti (fun _ _ _ => rfl) smaller
    · have before := (h.atMostOneUnknown_iff.1 few).anti (fun _ _ _ => rfl) smaller
      intro b b' hbb' hub hub'
      rcases (together_join hu hjoin).1 hbb' with ⟨rfl | hb, rfl | hb'⟩ | ⟨-, hbb'⟩
      · rfl
      · simp [known] at hub
      · simp [known] at hub'
      · have hbb' : Together u b b' := by
          obtain ⟨members, hclass, -, hall⟩ := hu a
          rw [Together, hclass] at hb hb'
          rw [Together, hall b hb]
          exact hb'
        exact before b b' hbb' hub hub'
      · exact before b b' hbb' hub hub'
  forget := by
    rintro s t e ⟨h, few⟩ hf
    have ht := h.forget hf
    exact ⟨ht, ht.atMostOneUnknown_iff.2 ((h.atMostOneUnknown_iff.1 few).forget h (fun _ _ _ => rfl) hf)⟩
  merge := by
    rintro s t ⟨h, few⟩ ⟨h', -⟩
    exact ⟨h.merge h', (h.merge h').atMostOneUnknown_iff.2 ((h.atMostOneUnknown_iff.1 few).merge h h')⟩

/-- A write gives copies to an entity of unknown objects exactly if it is to another one, which joins its class. -/
theorem solitary_write_iff (h : Partition s) (hs : Solitary s) (hw : CopyAnalysis.write e c s = .ok t) :
    Solitary t ↔ e.hasUnknownOwner = true ∨ ∀ a, anchor? e c = some a → a.hasUnknownOwner = false := by
  rw [(h.write hw).solitary_iff]
  obtain ⟨u, hu, smaller, ⟨rfl, stays⟩ | ⟨known, a, hanchor, hjoin⟩⟩ := exists_of_write h hw
  · refine iff_of_true ((h.solitary_iff.1 hs).anti (fun _ _ => rfl) smaller) (stays.imp_right fun none a ha => ?_)
    rw [none] at ha
    cases ha
  · have before := (h.solitary_iff.1 hs).anti (fun _ _ => rfl) smaller
    simp only [known, Bool.false_eq_true, false_or, hanchor, Option.some.injEq, forall_eq']
    constructor
    · intro alone
      refine Bool.eq_false_of_not_eq_true fun unknown => (mem_of_anchor? hanchor).2 ?_
      exact alone a e ((together_join hu hjoin).2 (.inl ⟨.inr (hu.together_self a), .inl rfl⟩)) unknown
    · intro anchored b b' hbb' hub
      rcases (together_join hu hjoin).1 hbb' with ⟨rfl | hb, -⟩ | ⟨-, hbb'⟩
      · simp [known] at hub
      · -- an entity of unknown objects in the class of the anchor would have been the anchor
        rw [← before b a (hu.together_symm hb) hub, hub] at anchored
        cases anchored
      · exact before b b' hbb' hub

end Analysis.CopyAnalysis

namespace Analysis

open CopyAnalysis

/-- **Entities of unknown objects in classes.** In every state that a copy analysis holds at any moment of any run, no
class has two of them. That they have no copies at all holds at first and is kept where control flows together and at
the ends of scopes. A write keeps it exactly if it is to such an entity, or if none stands for the class of the value. -/
theorem copies_hold_atMostOneUnknown {ctx : Context CopyClass} (arises : copies.Arises ctx) (ledger : Ledger CopyClass) :
    (∀ s, copies.Holds ctx ledger s → Partition s ∧ AtMostOneUnknown s) ∧
    (∀ s, copies.initialState ctx = .ok s → Solitary s) ∧
    (∀ s t, Partition s → Partition t → Solitary s → Solitary t → Solitary (State.merge Domain.copies s t) ∧
      Solitary (State.widen Domain.copies s t)) ∧
    (∀ s t e, Partition s → Solitary s → CopyAnalysis.forget e s = .ok t → Solitary t) ∧
    ∀ s t e c, Partition s → Solitary s → CopyAnalysis.write e c s = .ok t →
      (Solitary t ↔ e.hasUnknownOwner = true ∨ ∀ a, anchor? e c = some a → a.hasUnknownOwner = false) := by
  refine ⟨fun s hs => atMostOneUnknown_lasting.holds arises hs, fun s hs => ?_, fun s t h h' hs _ => ?_,
    fun s t e h hs hf => ?_, fun s t e c h hs hw => solitary_write_iff h hs hw⟩
  · have alone := classOf_of_arises arises hs
    exact (partition_of_singletons alone).solitary_iff.2 (related_of_alone (fun _ _ => rfl) alone)
  · have merged := (h.merge h').solitary_iff.2 ((h.solitary_iff.1 hs).merge h h')
    exact ⟨merged, (widen_eq_merge s t).symm ▸ merged⟩
  · exact (h.forget hf).solitary_iff.2 ((h.solitary_iff.1 hs).forget h (fun _ _ => rfl) hf)

namespace Unowned

open Nodes

/-- Some node that a method found. -/
def find (id : UInt32) : Operation := .invocation (info id node) (Symbol.method "C" "find" node) none []

/-- A local with a number. -/
def numberVar (id : UInt32) (name : String) : Operation := .localRef (info id int) (Symbol.localVar name int)

/-- The number in a node. -/
def numberOf (id owner : UInt32) (name : String) : Operation := .fieldRef (info id int) (some (ref owner name)) number

/-- Gets two nodes from somewhere, and reads the number in each of them. -/
def graph : Graph := body
  [.assignment (info 2 node) (ref 0 "u") (find 1), .assignment (info 5 node) (ref 3 "v") (find 4),
    .assignment (info 9 int) (numberVar 6 "x") (numberOf 8 7 "u"), .assignment (info 13 int) (numberVar 10 "y") (numberOf 12 11 "v"),
    .ret (info 15 int) (some (numberVar 14 "y"))]

/-- The body is run as usual, and no call is followed. -/
def start {V : Type} : Context V := Context.start graph Config.usual fun _ => none

/-- The body is run with what its references point to. -/
def context : Context CopyClass := { start with
  pointsTo := ((pointsTo.solve start).run (Ledger.start false)).1.toOption }

/-- The number that was read first. -/
def first : Entity := .localVar (Symbol.localVar "x" int) main

/-- The number that was read last. -/
def last : Entity := .localVar (Symbol.localVar "y" int) main

/-- The number in any node. -/
def anyNumber : Entity := .member number .unknown

/-- When both were read, the two numbers and that in any node are in one class. -/
theorem exists_held : ∃ s, copies.Holds context (Ledger.start false) s ∧
    s.find? first = some (.known (FinSet.ofList [first, last, anyNumber])) := by
  obtain ⟨sol, ledger, s, h, hs, hclass⟩ : ∃ sol ledger s,
      (copies.solve context).run (Ledger.start false) = (.ok sol, ledger) ∧ sol.exits.find? ⟨0⟩ = some s ∧
        s.find? first = some (.known (FinSet.ofList [first, last, anyNumber])) :=
    exists_of_inspected (by decide +kernel)
  obtain ⟨initial, p, m, start, between, rfl⟩ := exists_between_of_solve h
  exact ⟨s, .exit start between hs, hclass⟩

end Unowned

open Unowned in
/-- The number in any node is the only entity of unknown objects in the class. -/
theorem copies_hold_atMostOneUnknown_unowned : ∃ s, copies.Holds context (Ledger.start false) s ∧ AtMostOneUnknown s ∧
    s.find? first = some (.known (FinSet.ofList [first, last, anyNumber])) := by
  obtain ⟨s, held, hclass⟩ := exists_held
  exact ⟨s, held, ((copies_hold_atMostOneUnknown (.start rfl rfl) _).1 s held).2, hclass⟩

open Unowned in
/-- It makes copies of each other of the numbers in two nodes, which need not be the same. -/
theorem not_copies_hold_solitary : ∃ s, copies.Holds context (Ledger.start false) s ∧ ¬Solitary s ∧
    Together s first last := by
  obtain ⟨s, held, hclass⟩ := exists_held
  refine ⟨s, held, fun solitary => ?_, ?_⟩
  · have alone := solitary _ _ hclass (by decide +kernel) anyNumber (by decide +kernel)
    exact absurd alone (by decide)
  · rw [Together, classOf, State.valueOr_of_find? Domain.copies hclass]
    decide +kernel

end Analysis

end Dataflow
