import Dataflow.Proofs.Calls.Escape
import Dataflow.Proofs.Contracts.Analyses
import Dataflow.Proofs.Copies.Soundness

/-!
# What an opaque call does to copies

Nothing is known to be a copy of what escapes. So a call of unknown code detaches what it may write to from its class,
together with all that may be the same storage.

## The notions

* `CopyAnalysis.Loosens`: a state comes from another one by detaching some entities and their aliases.

## What is proved

A call loosens classes by what it exposes, and does nothing else (`CopyAnalysis.exists_run_callOpaquely`). So two
entities are still in one class after a call exactly if neither may be changed by a write to anything that it exposes.
-/

namespace Dataflow

namespace Analysis.CopyAnalysis

variable {s s' t u : State CopyClass} {e a b : Entity} {l l' : List Entity}

/-! ### Tracked entities -/

theorem find?_assignAll (members : FinSet Entity) (c : CopyClass) (s : State CopyClass) (a : Entity) :
    (assignAll members c s).find? a = if a ∈ members then some c else s.find? a := by
  have general : ∀ (l : List Entity) (s : State CopyClass),
      (l.foldl (fun s m => s.insert m c) s).find? a = if a ∈ l then some c else s.find? a := by
    intro l
    induction l with
    | nil => simp
    | cons m l ih =>
      intro s
      rw [List.foldl_cons, ih]
      by_cases ham : a = m
      · simp [ham, FinMap.find?_insert_self]
      · simp [ham, FinMap.find?_insert_ne s c ham]
  simpa [assignAll] using general members.toList s

/-- An entity is in its own class. -/
theorem Partition.together_self (h : Partition s) (a : Entity) : Together s a a := by
  obtain ⟨members, hclass, hself, -⟩ := h a
  rw [Together, hclass]
  exact hself

theorem Partition.together_symm (h : Partition s) (hab : Together s a b) : Together s b a := by
  obtain ⟨members, hclass, hself, hall⟩ := h a
  rw [Together, hclass] at hab
  rw [Together, hall b hab]
  exact hself

/-- Entities that have copies are tracked. -/
theorem isSome_of_together (hab : Together s a b) (hne : b ≠ a) : (s.find? a).isSome = true := by
  cases hs : s.find? a with
  | some c => rfl
  | none =>
    rw [Together, classOf, State.valueOr_of_not_mentioned Domain.copies hs] at hab
    exact absurd (FinSet.mem_singleton.1 hab) hne

/-- Detaching an entity makes nothing else tracked. -/
theorem isSome_find?_detach (h : Partition s) (hd : detach e s = .ok s') :
    (s'.find? a).isSome = true ↔ (s.find? a).isSome = true ∨ a = e := by
  obtain ⟨t, hleave, hok⟩ := Checked.bind_eq_ok.1 hd
  obtain rfl := Except.ok.inj hok
  by_cases ha : a = e
  · simp [ha, FinMap.find?_insert_self]
  · rw [FinMap.find?_insert_ne t _ ha]
    simp only [ha, or_false]
    obtain ⟨members, hclass, hself, hall⟩ := h e
    unfold leaveOthers at hleave
    dsimp only at hleave
    rw [hclass] at hleave
    split at hleave
    · obtain ⟨rest, hrest, hok⟩ := Checked.bind_eq_ok.1 hleave
      obtain rfl := CopyClass.eq_known_erase_of_remove hrest
      obtain rfl := Except.ok.inj hok
      rw [find?_assignAll, show (CopyClass.known (members.erase e)).members = members.erase e from rfl]
      by_cases hmem : a ∈ members
      · -- the other members of a class had it before
        have together : Together s a e := by
          rw [Together, hall a hmem]
          exact hself
        rw [if_pos (FinSet.mem_erase.2 ⟨ha, hmem⟩)]
        exact iff_of_true rfl (isSome_of_together together (Ne.symm ha))
      · rw [if_neg fun hc => hmem (FinSet.mem_erase.1 hc).2]
    · obtain rfl := Except.ok.inj hleave
      rfl

/-! ### Detached entities -/

/-- A state comes from another one by detaching some entities and what may be the same storage. -/
structure Loosens (s : State CopyClass) (l : List Entity) (t : State CopyClass) : Prop where
  /-- It is a partition. -/
  partition : Partition t
  /-- It tracks these entities besides what was tracked. -/
  tracked : ∀ a, (t.find? a).isSome = true ↔ (s.find? a).isSome = true ∨ a ∈ l
  /-- Entities stay together if none of these may be the same storage as either. -/
  together : ∀ a b, Together t a b ↔
    a = b ∨ Together s a b ∧ ∀ g ∈ l, g.mayAlias a = false ∧ g.mayAlias b = false

theorem Loosens.refl (h : Partition s) : Loosens s [] s where
  partition := h
  tracked := by simp
  together := fun a b => by
    constructor
    · exact fun hab => .inr ⟨hab, by simp⟩
    · rintro (rfl | ⟨hab, -⟩)
      · exact h.together_self a
      · exact hab

theorem Loosens.trans (first : Loosens s l t) (second : Loosens t l' u) : Loosens s (l ++ l') u where
  partition := second.partition
  tracked := fun a => by rw [second.tracked, first.tracked, List.mem_append, or_assoc]
  together := fun a b => by
    rw [second.together, first.together]
    constructor
    · rintro (hab | ⟨hab | ⟨hab, out⟩, out'⟩)
      · exact .inl hab
      · exact .inl hab
      · exact .inr ⟨hab, fun g hg => (List.mem_append.1 hg).elim (out g) (out' g)⟩
    · rintro (hab | ⟨hab, out⟩)
      · exact .inl hab
      · exact .inr ⟨.inr ⟨hab, fun g hg => out g (List.mem_append_left _ hg)⟩,
          fun g hg => out g (List.mem_append_right _ hg)⟩

theorem together_detachAll (h : Partition s) (hd : detachAll l s = .ok t) :
    Partition t ∧ (∀ a, (t.find? a).isSome = true ↔ (s.find? a).isSome = true ∨ a ∈ l) ∧
      ∀ a b, Together t a b ↔ a = b ∨ Together s a b ∧ a ∉ l ∧ b ∉ l := by
  unfold detachAll at hd
  induction l generalizing s with
  | nil =>
    obtain rfl := Except.ok.inj hd
    refine ⟨h, by simp, fun a b => ⟨fun hab => .inr ⟨hab, by simp, by simp⟩, ?_⟩⟩
    rintro (rfl | ⟨hab, -⟩)
    · exact h.together_self a
    · exact hab
  | cons e l ih =>
    rw [List.foldlM_cons] at hd
    obtain ⟨r, hfirst, hrest⟩ := Checked.bind_eq_ok.1 hd
    obtain ⟨partition, tracked, together⟩ := ih (h.detach hfirst) hrest
    refine ⟨partition, fun a => ?_, fun a b => ?_⟩
    · rw [tracked, isSome_find?_detach h hfirst, List.mem_cons, or_assoc]
    · rw [together, together_detach h hfirst, List.mem_cons, List.mem_cons, not_or, not_or]
      constructor
      · rintro (hab | ⟨⟨rfl, rfl⟩ | ⟨ha, hb, hab⟩, hal, hbl⟩)
        · exact .inl hab
        · exact .inl rfl
        · exact .inr ⟨hab, ⟨ha, hal⟩, hb, hbl⟩
      · rintro (hab | ⟨hab, ⟨ha, hal⟩, hb, hbl⟩)
        · exact .inl hab
        · exact .inr ⟨.inr ⟨ha, hb, hab⟩, hal, hbl⟩

/-- What escapes is loosened. -/
theorem loosens_write (h : Partition s) (hw : write e (.singleton e) s = .ok t) : Loosens s [e] t := by
  obtain ⟨r, hdetach, hall⟩ := write_singleton hw
  have first : ∀ a, (r.find? a).isSome = true ↔ (s.find? a).isSome = true ∨ a = e :=
    fun a => isSome_find?_detach h hdetach
  obtain ⟨partition, tracked, together⟩ := together_detachAll (h.detach hdetach) hall
  refine ⟨partition, fun a => ?_, fun a b => ?_⟩
  · rw [tracked, first, List.mem_singleton]
    refine or_iff_left_of_imp fun ha => ?_
    exact (first a).1 (State.mem_aliases.1 ha).1
  · -- who has a copy is tracked, and so is detached if it may be the same storage
    have apart : ∀ {x y}, Together s x y → y ≠ x → (x ≠ e ∧ x ∉ State.aliases e r ↔ e.mayAlias x = false) := by
      intro x y hxy hne
      have hx : (r.find? x).isSome = true := (first x).2 (.inl (isSome_of_together hxy hne))
      rw [State.mem_aliases]
      by_cases hxe : x = e
      · simp [hxe, Entity.mayAlias]
      · simp [hx, hxe]
    simp only [together, together_detach h hdetach, List.mem_singleton, forall_eq]
    by_cases hab : a = b
    · simp [hab]
    · simp only [hab, false_or]
      constructor
      · rintro ⟨⟨rfl, rfl⟩ | ⟨ha, hb, hs⟩, hal, hbl⟩
        · exact absurd rfl hab
        · exact ⟨hs, (apart hs (Ne.symm hab)).1 ⟨ha, hal⟩, (apart (h.together_symm hs) hab).1 ⟨hb, hbl⟩⟩
      · rintro ⟨hs, hal, hbl⟩
        obtain ⟨ha, hal⟩ := (apart hs (Ne.symm hab)).2 hal
        obtain ⟨hb, hbl⟩ := (apart (h.together_symm hs) hab).2 hbl
        exact ⟨.inr ⟨ha, hb, hs⟩, hal, hbl⟩

/-! ### Calls -/

variable {config : Config} {call : Call CopyClass} {m : Machine CopyClass}

theorem exists_run_escapeAll (l : List Entity) (h : Partition m.state) :
    ∃ t, ExceptT.run (copies.escapeAll l) m = (.ok ⟨⟩, { m with state := t }) ∧ Loosens m.state l t := by
  induction l generalizing m with
  | nil => exact ⟨m.state, rfl, .refl h⟩
  | cons e l ih =>
    obtain ⟨r, hr⟩ := exists_write e (.singleton e) m.state
    have first : ExceptT.run (copies.store e (copies.escapedValue e)) m = (.ok ⟨⟩, { m with state := r }) := by
      show ExceptT.run (Visit.check (write e (.singleton e) m.state) >>= Visit.setState) m = _
      rw [hr]
      rfl
    have loosens := loosens_write h hr
    obtain ⟨t, hrest, rest⟩ := ih (m := { m with state := r }) loosens.partition
    refine ⟨t, ?_, loosens.trans rest⟩
    show ExceptT.run (copies.storeAll ((e, copies.escapedValue e) :: l.map fun e => (e, copies.escapedValue e))) m = _
    rw [storeAll, List.forM_eq_forM, List.forM_cons, Visit.run_bind, first]
    exact hrest

/-- A call of unknown code succeeds, and it loosens what it exposes. -/
theorem exists_run_callOpaquely (h : Partition m.state) :
    ∃ l t, ExceptT.run (copies.callOpaquely config call) m = (.ok .unknown, { m with state := t }) ∧
      Loosens m.state l t ∧ ∀ e, e ∈ l ↔ Exposes config call m.state e := by
  obtain ⟨r, passes, passed⟩ := exists_run_escapeAll (passedStorage call) h
  obtain ⟨t, escapes, escaped⟩ := exists_run_escapeAll (m := { m with state := r }) (copies.escaped config call r)
    passed.partition
  refine ⟨_, t, ?_, passed.trans escaped, fun e => ?_⟩
  · rw [callOpaquely, Visit.run_bind, passes]
    dsimp only
    rw [escapeReachable, Visit.run_bind, Visit.run_bind]
    have read : ExceptT.run (Visit.state : Visit CopyClass (State CopyClass)) { m with state := r } =
      (.ok r, { m with state := r }) := rfl
    rw [read]
    dsimp only
    rw [escapes]
    rfl
  · have nothing : ∀ f, copies.reachable r f = [] := fun _ => rfl
    rw [List.mem_append, mem_escaped, escapes_iff nothing, passed.tracked, Exposes]
    constructor
    · rintro (h | ⟨h | h, rest⟩)
      · exact .inl h
      · exact .inr ⟨h, rest⟩
      · exact .inl h
    · rintro (h | ⟨h, rest⟩)
      · exact .inl h
      · exact .inr ⟨.inl h, rest⟩

/-- An entity covers what unknown code may have stored into it exactly if it has no copies. -/
theorem merge_singleton_classOf_iff (h : Partition t) :
    CopyClass.merge (.singleton e) (classOf e t) = classOf e t ↔ ∀ b, Together t e b → b = e := by
  obtain ⟨members, hclass, hself, -⟩ := h e
  have shared : CopyClass.merge (.singleton e) (.known members) = .known ((FinSet.singleton e).inter members) :=
    CopyClass.merge_known (FinSet.mem_singleton.2 rfl) hself
  rw [hclass, shared, CopyClass.known.injEq]
  simp only [Together, hclass, CopyClass.members]
  constructor
  · intro same b hb
    rw [← same] at hb
    exact FinSet.mem_singleton.1 (FinSet.mem_inter.1 hb).1
  · intro alone
    refine FinSet.ext fun b => ?_
    rw [FinSet.mem_inter, FinSet.mem_singleton]
    exact ⟨fun hb => hb.2, fun hb => ⟨alone b hb, hb⟩⟩

end Analysis.CopyAnalysis

namespace Analysis

open CopyAnalysis

/-- In the analysis of copies an entity escapes if each copy of it, or the entity itself, may be changed by a write to
something that the call exposes. -/
theorem copies_letsEscape_iff_together {config : Config} {call : Call CopyClass} {m : Machine CopyClass} {e : Entity}
    (h : Partition m.state) : copies.LetsEscape config call m e ↔
      ∀ b, Together m.state e b → b ≠ e →
        ∃ g, Exposes config call m.state g ∧ (g.mayAlias e = true ∨ g.mayAlias b = true) := by
  obtain ⟨l, t, run, loosens, exposes⟩ := @exists_run_callOpaquely config call m h
  have covers : copies.LetsEscape config call m e ↔ ∀ b, Together t e b → b = e := by
    rw [← merge_singleton_classOf_iff loosens.partition, LetsEscape, run]
    constructor
    · rintro ⟨v, m', hrun, covers⟩
      cases hrun
      exact covers
    · exact fun covers => ⟨_, _, rfl, covers⟩
  rw [covers]
  refine forall_congr' fun b => ?_
  rw [loosens.together]
  simp only [exposes]
  constructor
  · intro alone hb hne
    by_contra none
    simp only [not_exists, not_and, not_or, Bool.not_eq_true] at none
    exact hne (alone (.inr ⟨hb, none⟩))
  · rintro written (hab | ⟨hb, out⟩)
    · exact hab.symm
    · by_contra hne
      obtain ⟨g, hg, halias⟩ := written hb hne
      obtain ⟨he, hb⟩ := out g hg
      simp [he, hb] at halias

end Analysis

end Dataflow
