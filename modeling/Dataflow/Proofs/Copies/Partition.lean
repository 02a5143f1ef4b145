import Dataflow.Analysis.Copies
import Dataflow.Proofs.Lattice.Absorption
import Dataflow.Proofs.State.Writes

/-!
# States of the copy analysis are partitions

The copy analysis stores a class at each of its members. Nothing in the type of its states
keeps two members from having different classes; that they have the same one is an invariant
(`Partition`), and every step of the analysis has to restore it.

## What is proved

* Merging intersects classes, and the intersections are a partition again (`Partition.merge`).
* Detaching an entity removes it from all classes and leaves it alone (`classOf_detach`).
* Joining an entity that is alone to a class adds it there (`classOf_join`).

Writes and the ends of scopes are made of these (`Partition.write`, `Partition.forget`).
-/

namespace Dataflow

/-- A computation in two steps succeeds if both steps do. -/
theorem Checked.bind_eq_ok {α β : Type} {x : Checked α} {f : α → Checked β} {b : β} :
    x >>= f = .ok b ↔ ∃ a, x = .ok a ∧ f a = .ok b := by
  constructor
  · intro h
    cases x with
    | error e => cases h
    | ok a => exact ⟨a, rfl, h⟩
  · rintro ⟨a, rfl, h⟩
    exact h

namespace CopyClass

/-- Classes that share an entity merge to what they share. -/
theorem merge_known {a b : FinSet Entity} {e : Entity} (ha : e ∈ a) (hb : e ∈ b) :
    merge (known a) (known b) = known (a.inter b) := by
  by_cases hab : a = b
  · subst hab
    rw [merge_self]
    exact congrArg known (FinSet.ext fun x => by simp)
  · rw [known_merge_known hab, if_neg]
    intro hempty
    have hmem : e ∈ a.inter b := FinSet.mem_inter.2 ⟨ha, hb⟩
    rw [FinSet.isEmpty_iff.1 hempty] at hmem
    exact FinSet.not_mem_empty e hmem

theorem eq_known_of_ofMembers {s : FinSet Entity} {c : CopyClass} (h : ofMembers s = .ok c) : c = known s := by
  unfold ofMembers at h
  split at h
  · cases h
  · exact (Except.ok.inj h).symm

theorem eq_known_erase_of_remove {s : FinSet Entity} {e : Entity} {c : CopyClass}
    (h : (known s).remove e = .ok c) : c = known (s.erase e) := by
  unfold remove at h
  dsimp only at h
  split at h
  · cases h
  · split at h
    · cases h
    · exact eq_known_of_ofMembers h

end CopyClass

namespace FinSet

/-- A set of at most one member has no other one. -/
theorem eq_of_size_le_one {s : FinSet Entity} {a b : Entity} (hs : s.size ≤ 1) (ha : a ∈ s) (hb : b ∈ s) : a = b := by
  rw [← mem_toList] at ha hb
  unfold size at hs
  match hl : s.toList, hs with
  | [], _ =>
    rw [hl] at ha
    cases ha
  | [x], _ =>
    rw [hl, List.mem_singleton] at ha hb
    exact ha.trans hb.symm
  | _ :: _ :: _, hs =>
    simp only [List.length_cons] at hs
    omega

theorem erase_of_not_mem {s : FinSet Entity} {e : Entity} (h : e ∉ s) : s.erase e = s := by
  apply FinSet.ext
  intro x
  rw [mem_erase]
  constructor
  · exact fun hx => hx.2
  · exact fun hx => ⟨fun he => h (he ▸ hx), hx⟩

end FinSet

namespace Analysis.CopyAnalysis

variable {s s' t : State CopyClass} {e a : Entity}

/-- Every entity is in its class, and all members of a class have that class. -/
def Partition (s : State CopyClass) : Prop :=
  ∀ e, ∃ members, classOf e s = .known members ∧ e ∈ members ∧ ∀ m ∈ members, classOf m s = .known members

/-- Two entities are in one class. -/
def Together (s : State CopyClass) (a b : Entity) : Prop := b ∈ (classOf a s).members

/-! ### Steps -/

theorem classOf_insert_self (s : State CopyClass) (e : Entity) (c : CopyClass) : classOf e (s.insert e c) = c :=
  State.valueOr_insert_self _ _ _ _

theorem classOf_insert_ne (s : State CopyClass) (c : CopyClass) (h : a ≠ e) :
    classOf a (s.insert e c) = classOf a s :=
  State.valueOr_insert_ne _ _ _ h

/-- Only the members get the class. -/
theorem classOf_assignAll (members : FinSet Entity) (c : CopyClass) (s : State CopyClass) (a : Entity) :
    classOf a (assignAll members c s) = if a ∈ members then c else classOf a s := by
  have general : ∀ (l : List Entity) (s : State CopyClass),
      classOf a (l.foldl (fun s m => s.insert m c) s) = if a ∈ l then c else classOf a s := by
    intro l
    induction l with
    | nil => simp
    | cons m l ih =>
      intro s
      rw [List.foldl_cons, ih]
      by_cases hl : a ∈ l
      · simp [hl]
      · by_cases ham : a = m
        · simp [ham, classOf_insert_self]
        · simp [hl, ham, classOf_insert_ne s c ham]
  simpa [assignAll] using general members.toList s

/-- An entity that is not in the class of another one has no part in it. -/
theorem Partition.not_mem (h : Partition s) {members : FinSet Entity} (ha : classOf a s = .known members)
    (hne : a ∉ (classOf e s).members) : e ∉ members := by
  intro he
  obtain ⟨others, hothers, hself, hall⟩ := h a
  obtain rfl : others = members := CopyClass.known.inj (hothers.symm.trans ha)
  refine hne ?_
  rw [hall e he]
  exact hself

/-- The members of a class that one of them leaves keep what is left of it. -/
theorem classOf_leaveOthers (h : Partition s) (hl : leaveOthers e s = .ok t) (hne : a ≠ e) :
    classOf a t = .known ((classOf a s).members.erase e) := by
  obtain ⟨members, hclass, hself, hall⟩ := h e
  have outside : a ∉ members → classOf a s = .known ((classOf a s).members.erase e) := by
    intro ha
    obtain ⟨others, hothers, -, -⟩ := h a
    have hnot : e ∉ others := h.not_mem hothers (by rw [hclass]; exact ha)
    rw [hothers]
    exact congrArg CopyClass.known (FinSet.erase_of_not_mem hnot).symm
  unfold leaveOthers at hl
  dsimp only at hl
  rw [hclass] at hl
  split at hl
  · obtain ⟨rest, hrest, hok⟩ := Checked.bind_eq_ok.1 hl
    obtain rfl := CopyClass.eq_known_erase_of_remove hrest
    obtain rfl := Except.ok.inj hok
    rw [classOf_assignAll]
    show (if a ∈ members.erase e then _ else _) = _
    by_cases hmem : a ∈ members
    · rw [if_pos (FinSet.mem_erase.2 ⟨hne, hmem⟩), hall a hmem]
      rfl
    · rw [if_neg fun hc => hmem (FinSet.mem_erase.1 hc).2]
      exact outside hmem
  · rename_i hsmall
    obtain rfl := Except.ok.inj hl
    refine outside fun hmem => hne ?_
    have hcontains : (CopyClass.known members).contains e = true := hself
    simp only [CopyClass.isKnown, hcontains, CopyClass.members, Bool.true_and] at hsmall
    have hsize : ¬ 1 < members.size := fun hlt => hsmall (decide_eq_true hlt)
    exact FinSet.eq_of_size_le_one (by omega) hmem hself

/-- A detached entity is alone, and the other classes lose it. -/
theorem classOf_detach (h : Partition s) (hd : detach e s = .ok s') (a : Entity) :
    classOf a s' = if a = e then .singleton e else .known ((classOf a s).members.erase e) := by
  obtain ⟨t, hleave, hok⟩ := Checked.bind_eq_ok.1 hd
  obtain rfl := Except.ok.inj hok
  by_cases ha : a = e
  · rw [if_pos ha, ha, classOf_insert_self]
  · rw [if_neg ha, classOf_insert_ne t _ ha, classOf_leaveOthers h hleave ha]

/-- A detached entity is alone. -/
theorem classOf_detach_self (h : Partition s) (hd : CopyAnalysis.detach e s = .ok s') : classOf e s' = .singleton e := by
  rw [classOf_detach h hd, if_pos rfl]

/-- An entity joins the class of another one. -/
theorem classOf_join {members : FinSet Entity} (hanchor : classOf a s = .known members) (hmem : a ∈ members)
    (hj : join e a s = .ok s') (b : Entity) :
    classOf b s' = if b ∈ members.insert e then .known (members.insert e) else classOf b s := by
  unfold join at hj
  dsimp only at hj
  rw [hanchor] at hj
  split at hj
  · rename_i hempty
    rw [FinSet.isEmpty_iff.1 (show members.isEmpty = true from hempty)] at hmem
    exact absurd hmem (FinSet.not_mem_empty a)
  · obtain ⟨c, hc, hok⟩ := Checked.bind_eq_ok.1 hj
    obtain rfl := CopyClass.eq_known_of_ofMembers hc
    obtain rfl := Except.ok.inj hok
    exact classOf_assignAll _ _ _ _

/-! ### The invariant -/

/-- In the beginning every entity is alone. -/
theorem partition_of_singletons (h : ∀ e, classOf e s = .singleton e) : Partition s := by
  intro e
  refine ⟨FinSet.singleton e, h e, FinSet.mem_singleton.2 rfl, fun m hm => ?_⟩
  rw [FinSet.mem_singleton.1 hm, h e]
  rfl

/-- Only the classes of entities matter. -/
theorem Partition.congr (h : Partition s) (same : ∀ a, classOf a t = classOf a s) : Partition t := by
  intro a
  obtain ⟨members, hclass, hself, hall⟩ := h a
  exact ⟨members, (same a).trans hclass, hself, fun m hm => (same m).trans (hall m hm)⟩

theorem Partition.detach (h : Partition s) (hd : detach e s = .ok s') : Partition s' := by
  intro a
  by_cases ha : a = e
  · subst ha
    refine ⟨FinSet.singleton a, by rw [classOf_detach h hd, if_pos rfl]; rfl, FinSet.mem_singleton.2 rfl,
      fun m hm => ?_⟩
    rw [FinSet.mem_singleton.1 hm, classOf_detach h hd, if_pos rfl]
    rfl
  · obtain ⟨members, hclass, hself, hall⟩ := h a
    refine ⟨members.erase e, by rw [classOf_detach h hd, if_neg ha, hclass]; rfl,
      FinSet.mem_erase.2 ⟨ha, hself⟩, fun m hm => ?_⟩
    obtain ⟨hne, hmem⟩ := FinSet.mem_erase.1 hm
    rw [classOf_detach h hd, if_neg hne, hall m hmem]
    rfl

/-- Only an entity that is alone may join. -/
theorem Partition.join (h : Partition s) (halone : classOf e s = .singleton e) (hj : join e a s = .ok s') :
    Partition s' := by
  obtain ⟨members, hanchor, hmem, hall⟩ := h a
  have spec := classOf_join hanchor hmem hj
  intro b
  by_cases hb : b ∈ members.insert e
  · refine ⟨members.insert e, by rw [spec, if_pos hb], hb, fun m hm => ?_⟩
    rw [spec, if_pos hm]
  · obtain ⟨others, hothers, hself, hrest⟩ := h b
    refine ⟨others, by rw [spec, if_neg hb, hothers], hself, fun m hm => ?_⟩
    have hout : m ∉ members.insert e := by
      intro hin
      refine hb (FinSet.mem_insert.2 ?_)
      rcases FinSet.mem_insert.1 hin with rfl | hin
      · rw [hrest m hm] at halone
        obtain rfl := CopyClass.known.inj halone
        exact .inl (FinSet.mem_singleton.1 hself)
      · obtain rfl := CopyClass.known.inj ((hrest m hm).symm.trans (hall m hin))
        exact .inr hself
    rw [spec, if_neg hout, hrest m hm]

/-- Both states at a join point have a part in the classes there. -/
theorem classOf_merge (hs : Partition s) (ht : Partition t) (a : Entity) :
    classOf a (State.merge Domain.copies s t) = .known ((classOf a s).members.inter (classOf a t).members) := by
  obtain ⟨left, hleft, hl, -⟩ := hs a
  obtain ⟨right, hright, hr, -⟩ := ht a
  have merged : classOf a (State.merge Domain.copies s t) = (classOf a s).merge (classOf a t) :=
    State.valueOr_merge CopyClass.merge_self s t a
  rw [merged, hleft, hright]
  exact CopyClass.merge_known hl hr

theorem Partition.merge (hs : Partition s) (ht : Partition t) : Partition (State.merge Domain.copies s t) := by
  intro a
  obtain ⟨left, hleft, hl, hallLeft⟩ := hs a
  obtain ⟨right, hright, hr, hallRight⟩ := ht a
  refine ⟨left.inter right, by rw [classOf_merge hs ht, hleft, hright]; rfl, FinSet.mem_inter.2 ⟨hl, hr⟩,
    fun m hm => ?_⟩
  obtain ⟨hml, hmr⟩ := FinSet.mem_inter.1 hm
  rw [classOf_merge hs ht, hallLeft m hml, hallRight m hmr]
  rfl

/-- Widening merges. -/
theorem widen_eq_merge (s t : State CopyClass) : State.widen Domain.copies s t = State.merge Domain.copies s t := by
  apply FinMap.ext
  intro e
  rw [State.find?_widen, State.find?_merge]
  simp only [CopyClass.widenValue_eq]
  rfl

/-! ### Writes and the ends of scopes -/

/-- Detaching other entities leaves one that is alone by itself. -/
theorem Partition.detachAll {l : List Entity} (h : Partition s) (alone : classOf e s = .singleton e) (he : e ∉ l)
    (hd : CopyAnalysis.detachAll l s = .ok s') : Partition s' ∧ classOf e s' = .singleton e := by
  unfold CopyAnalysis.detachAll at hd
  induction l generalizing s with
  | nil =>
    obtain rfl := Except.ok.inj hd
    exact ⟨h, alone⟩
  | cons a l ih =>
    rw [List.mem_cons, not_or] at he
    rw [List.foldlM_cons] at hd
    obtain ⟨t, hfirst, hrest⟩ := Checked.bind_eq_ok.1 hd
    refine ih (h.detach hfirst) ?_ he.2 hrest
    rw [classOf_detach h hfirst, if_neg he.1, alone]
    refine congrArg CopyClass.known (FinSet.erase_of_not_mem fun ha => ?_)
    exact he.1 (FinSet.mem_singleton.1 ha).symm

/-- A write detaches the target and its aliases; then the target may join a class. -/
theorem Partition.write {c : CopyClass} (h : Partition s) (hw : CopyAnalysis.write e c s = .ok s') : Partition s' := by
  unfold CopyAnalysis.write at hw
  dsimp only at hw
  obtain ⟨t, hdetach, hw⟩ := Checked.bind_eq_ok.1 hw
  obtain ⟨u, hall, hw⟩ := Checked.bind_eq_ok.1 hw
  obtain ⟨hu, alone⟩ := (h.detach hdetach).detachAll (classOf_detach_self h hdetach)
    (fun hmem => (State.mem_aliases.1 hmem).2.1 rfl) hall
  split at hw
  · obtain rfl := Except.ok.inj hw
    exact hu
  · split at hw
    · exact hu.join alone hw
    · obtain rfl := Except.ok.inj hw
      exact hu

/-- At the end of its scope an entity is detached, and classes are as after that. -/
theorem classOf_forget (h : Partition s) (hf : CopyAnalysis.forget e s = .ok s') :
    ∃ t, CopyAnalysis.detach e s = .ok t ∧ ∀ a, classOf a s' = classOf a t := by
  obtain ⟨t, hdetach, hok⟩ := Checked.bind_eq_ok.1 hf
  obtain rfl := Except.ok.inj hok
  refine ⟨t, hdetach, fun a => ?_⟩
  by_cases ha : a = e
  · rw [ha, classOf_detach_self h hdetach]
    exact State.valueOr_erase_self _ _ _
  · exact State.valueOr_erase_ne _ _ ha

theorem Partition.forget (h : Partition s) (hf : CopyAnalysis.forget e s = .ok s') : Partition s' := by
  obtain ⟨t, hdetach, same⟩ := classOf_forget h hf
  exact (h.detach hdetach).congr same

/-! ### Who is together -/

theorem together_detach (h : Partition s) (hd : CopyAnalysis.detach e s = .ok s') {a b : Entity} :
    Together s' a b ↔ a = e ∧ b = e ∨ a ≠ e ∧ b ≠ e ∧ Together s a b := by
  unfold Together
  rw [classOf_detach h hd]
  by_cases ha : a = e
  · rw [if_pos ha]
    simp [ha, CopyClass.singleton, CopyClass.members]
  · rw [if_neg ha]
    simp [ha, CopyClass.members]

theorem together_join (h : Partition s) (hj : CopyAnalysis.join e a s = .ok s') {b c : Entity} :
    Together s' b c ↔ (b = e ∨ Together s a b) ∧ (c = e ∨ Together s a c) ∨
      ¬ (b = e ∨ Together s a b) ∧ Together s b c := by
  obtain ⟨members, hanchor, hmem, -⟩ := h a
  unfold Together
  rw [classOf_join hanchor hmem hj, hanchor]
  by_cases hb : b ∈ members.insert e
  · rw [if_pos hb]
    simp only [FinSet.mem_insert] at hb
    simp [CopyClass.members, hb]
  · rw [if_neg hb]
    simp only [FinSet.mem_insert] at hb
    simp [CopyClass.members, hb]

theorem together_merge (hs : Partition s) (ht : Partition t) {a b : Entity} :
    Together (State.merge Domain.copies s t) a b ↔ Together s a b ∧ Together t a b := by
  unfold Together
  rw [classOf_merge hs ht]
  exact FinSet.mem_inter

end Analysis.CopyAnalysis

end Dataflow
