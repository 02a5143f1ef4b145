import Dataflow.Analysis.Copies
import Dataflow.Proofs.Copies.Soundness
import Dataflow.Proofs.Lattice.Chains
import Dataflow.Proofs.Settling.Bounds
import Mathlib.Data.Prod.Lex

/-!
# Copies keep to bounds

A class of copies has no part in how storage is named, but it names storage itself, and writes spread
classes over their members. So the copy analysis can do with any number of values, and it owes that classes
mention no entities that nothing else does.

## What is proved

`copies_keeps`. Taking an entity out of its class and putting it into another one always succeeds, and no step
mentions an entity besides those of the state, of the class and the target (`write_covered`). A class that widening
changes loses members or is given up.
-/

namespace Dataflow

namespace CopyClass

/-- The entities that a class mentions. -/
def mentioned (c : CopyClass) : Set Entity := {e | e ∈ c.members}

@[simp]
theorem mem_mentioned {c : CopyClass} {e : Entity} : e ∈ c.mentioned ↔ e ∈ c.members := Iff.rfl

theorem mentioned_finite (c : CopyClass) : c.mentioned.Finite :=
  (List.finite_toSet c.members.toList).subset fun _ he => FinSet.mem_toList.2 he

theorem mentioned_singleton (e : Entity) : (singleton e).mentioned = {e} := by
  ext a
  exact FinSet.mem_singleton

theorem mentioned_unknown : unknown.mentioned = ∅ := by
  ext a
  exact iff_of_false (FinSet.not_mem_empty a) (Set.notMem_empty a)

/-- A merge has members of its parts only. -/
theorem mentioned_merge (a b : CopyClass) : (merge a b).mentioned ⊆ a.mentioned ∪ b.mentioned := by
  by_cases h : a = b
  · rw [h, merge_self]
    exact Set.subset_union_left
  · cases a with
    | known s =>
      cases b with
      | known t =>
        rw [known_merge_known fun e => h (congrArg known e)]
        split
        · rw [mentioned_unknown]
          exact Set.empty_subset _
        · exact fun e he => .inl (FinSet.mem_inter.1 he).1
      | unknown =>
        rw [show merge (known s) unknown = unknown from rfl, mentioned_unknown]
        exact Set.empty_subset _
      | _ => exact Set.subset_union_left
    | unknown =>
      have : merge unknown b = unknown := by cases b <;> rfl
      rw [this, mentioned_unknown]
      exact Set.empty_subset _
    | notApplicable => exact Set.subset_union_of_subset_right (by cases b <;> exact subset_rfl) _
    | invalid =>
      cases b with
      | notApplicable => exact Set.subset_union_left
      | _ => exact Set.subset_union_right

/-- How far a class is from being given up: first by its kind, then by its members. -/
def height : CopyClass → Nat ×ₗ Nat
  | unknown => toLex (0, 0)
  | known s => toLex (1, s.size)
  | invalid => toLex (2, 0)
  | notApplicable => toLex (3, 0)

/-- Merging takes a class down unless it changes nothing. -/
theorem height_merge_lt {a b : CopyClass} (h : merge a b ≠ a) : (merge a b).height < a.height := by
  have hab : a ≠ b := fun e => h (by rw [e, merge_self])
  cases a with
  | unknown => exact absurd (by cases b <;> rfl) h
  | known s =>
    cases b with
    | known t =>
      rw [known_merge_known fun e => hab (congrArg known e)] at h ⊢
      split
      · exact Prod.Lex.left _ _ Nat.zero_lt_one
      · rename_i hne
        rw [if_neg hne] at h
        exact Prod.Lex.right _ (size_inter_lt fun e => h (congrArg known e))
    | unknown => exact Prod.Lex.left _ _ Nat.zero_lt_one
    | _ => exact absurd rfl h
  | invalid =>
    cases b with
    | notApplicable => exact absurd rfl h
    | invalid => exact absurd rfl hab
    | unknown => exact Prod.Lex.left _ _ (by decide)
    | known t => exact Prod.Lex.left _ _ (by decide)
  | notApplicable =>
    cases b with
    | notApplicable => exact absurd rfl hab
    | invalid => exact Prod.Lex.left _ _ (by decide)
    | unknown => exact Prod.Lex.left _ _ (by decide)
    | known t => exact Prod.Lex.left _ _ (by decide)

theorem wellFounded_widen :
    WellFounded fun new old : CopyClass => new ≠ old ∧ ∃ x, new = State.widenValue Domain.copies old x := by
  refine Subrelation.wf (r := InvImage (· < ·) height) ?_ (InvImage.wf _ wellFounded_lt)
  rintro new old ⟨hne, x, rfl⟩
  rw [widenValue_eq] at hne ⊢
  exact height_merge_lt hne

end CopyClass

namespace Analysis

open Scope

/-- The scope of the copy analysis: any number of classes, each of which mentions its members. -/
def classes : Scope CopyClass := ⟨fun _ => True, CopyClass.mentioned⟩

namespace CopyAnalysis

variable {X : Set Entity} {s : State CopyClass} {e : Entity}

/-! ### Steps of a write -/

theorem mentioned_missing (e : Entity) : classes.mentions (Domain.copies.missing e) ⊆ {e} :=
  (CopyClass.mentioned_singleton e).subset

theorem classOf_covered (h : classes.Covered X s) (he : e ∈ X) : (classOf e s).mentioned ⊆ X :=
  mentions_valueOr mentioned_missing h he

theorem assignAll_covered (h : classes.Covered X s) {members : FinSet Entity} {c : CopyClass}
    (hmembers : ∀ m ∈ members, m ∈ X) (hc : c.mentioned ⊆ X) : classes.Covered X (assignAll members c s) := by
  have hl : ∀ m ∈ members.toList, m ∈ X := fun m hm => hmembers m (FinSet.mem_toList.1 hm)
  unfold assignAll
  generalize members.toList = l at hl
  induction l generalizing s with
  | nil => exact h
  | cons m l ih =>
    exact ih (h.insert (hl m List.mem_cons_self) hc) fun a ha => hl a (List.mem_cons_of_mem _ ha)

/-- An entity that is not alone in its class can be taken out of it. -/
theorem exists_remove {members : FinSet Entity} (he : members.contains e = true) (hsize : 1 < members.size) :
    ∃ c, (CopyClass.known members).remove e = .ok c := by
  cases hr : (CopyClass.known members).remove e with
  | ok c => exact ⟨c, rfl⟩
  | error f =>
    unfold CopyClass.remove at hr
    dsimp only at hr
    rw [he, if_neg (by simp), if_neg (by omega)] at hr
    unfold CopyClass.ofMembers at hr
    split at hr
    · rename_i hempty
      rw [FinSet.isEmpty_iff] at hempty
      -- Without the entity nothing would be left, so it would be the only member.
      have alone : ∀ a ∈ members.toList, a = e := by
        intro a ha
        by_contra hae
        have : a ∈ members.erase e := FinSet.mem_erase.2 ⟨hae, FinSet.mem_toList.1 ha⟩
        rw [hempty] at this
        exact FinSet.not_mem_empty a this
      have ascending := members.ascending
      unfold FinSet.size at hsize
      match hl : members.toList, hsize with
      | a :: b :: l, _ =>
        rw [hl] at alone ascending
        have hab := (List.pairwise_cons.1 ascending).1 b List.mem_cons_self
        rw [alone a List.mem_cons_self, alone b (List.mem_cons_of_mem _ List.mem_cons_self)] at hab
        simp [Std.ReflCmp.compare_self] at hab
    · cases hr

theorem leaveOthers_covered (h : classes.Covered X s) (he : e ∈ X) :
    ∃ s', leaveOthers e s = .ok s' ∧ classes.Covered X s' := by
  unfold leaveOthers
  dsimp only
  split
  · rename_i hc
    rw [Bool.and_eq_true, Bool.and_eq_true, decide_eq_true_eq] at hc
    have hsub := classOf_covered h he
    cases hclass : classOf e s with
    | known members =>
      rw [hclass] at hc hsub
      obtain ⟨c, hremove⟩ : ∃ c, (CopyClass.known members).remove e = .ok c := exists_remove hc.1.2 hc.2
      obtain rfl := CopyClass.eq_known_erase_of_remove hremove
      have rest : ∀ m ∈ members.erase e, m ∈ X := fun m hm => hsub (FinSet.mem_erase.1 hm).2
      rw [hremove]
      exact ⟨_, rfl, assignAll_covered h rest fun m hm => rest m hm⟩
    | _ =>
      rw [hclass] at hc
      cases hc.1.1
  · exact ⟨s, rfl, h⟩

theorem detach_covered (h : classes.Covered X s) (he : e ∈ X) : ∃ s', detach e s = .ok s' ∧ classes.Covered X s' := by
  obtain ⟨t, ht, hcovered⟩ := leaveOthers_covered h he
  unfold detach
  rw [ht]
  exact ⟨_, rfl, hcovered.insert he (mentioned_missing e |>.trans (Set.singleton_subset_iff.2 he))⟩

theorem detachAll_covered {l : List Entity} (hl : ∀ a ∈ l, a ∈ X) (h : classes.Covered X s) :
    ∃ s', detachAll l s = .ok s' ∧ classes.Covered X s' := by
  unfold detachAll
  induction l generalizing s with
  | nil => exact ⟨s, rfl, h⟩
  | cons a l ih =>
    obtain ⟨t, ht, hcovered⟩ := detach_covered h (hl a List.mem_cons_self)
    rw [List.foldlM_cons, ht]
    exact ih (fun b hb => hl b (List.mem_cons_of_mem _ hb)) hcovered

theorem join_covered {a : Entity} (h : classes.Covered X s) (he : e ∈ X) (ha : a ∈ X) :
    ∃ s', join e a s = .ok s' ∧ classes.Covered X s' := by
  unfold join
  dsimp only
  split
  · exact ⟨s, rfl, h⟩
  · have members : ∀ m ∈ (classOf a s).members.insert e, m ∈ X := by
      intro m hm
      rcases FinSet.mem_insert.1 hm with rfl | hm
      · exact he
      · exact classOf_covered h ha hm
    have nonempty : ((classOf a s).members.insert e).isEmpty = false := by
      rw [Bool.eq_false_iff]
      intro hempty
      have : e ∈ (classOf a s).members.insert e := FinSet.mem_insert.2 (.inl rfl)
      rw [FinSet.isEmpty_iff.1 hempty] at this
      exact FinSet.not_mem_empty e this
    unfold CopyClass.ofMembers
    rw [nonempty]
    exact ⟨_, rfl, assignAll_covered h members members⟩

/-- A write succeeds, and it mentions nothing but the target and the class of the value besides. -/
theorem write_covered {v : CopyClass} (h : classes.Covered X s) (he : e ∈ X) (hv : v.mentioned ⊆ X) :
    ∃ s', write e v s = .ok s' ∧ classes.Covered X s' := by
  obtain ⟨s₁, hs₁, h₁⟩ := detach_covered h he
  obtain ⟨s₂, hs₂, h₂⟩ := detachAll_covered (l := State.aliases e s₁)
    (fun a ha => h₁.mem_of_mem_entities (List.mem_of_mem_filter ha)) h₁
  unfold write
  dsimp only
  simp only [hs₁, bind, Except.bind]
  simp only [hs₂]
  split
  · exact ⟨s₂, rfl, h₂⟩
  · cases hanchor : anchor? e v with
    | none => exact ⟨s₂, rfl, h₂⟩
    | some a => exact join_covered h₂ he (hv (mem_of_anchor? hanchor).1)

theorem forget_covered (h : classes.Covered X s) (he : e ∈ X) : ∃ s', forget e s = .ok s' ∧ classes.Covered X s' := by
  obtain ⟨t, ht, hcovered⟩ := detach_covered h he
  unfold forget
  rw [ht]
  exact ⟨_, rfl, hcovered.erase e⟩

/-! ### The hooks -/

theorem assign_keeps :
    classes.Keeps Domain.copies (fun B X i => classes.Names B X i.1 ∧ classes.Says B X i.2)
      (fun i : Option Entity × CopyClass => assign i.1 i.2) classes.Says := by
  refine Keeps.of_covered (fun _ => trivial) Set.finite_empty fun B X i m hB _ hi hm _ => ?_
  obtain ⟨target, v⟩ := i
  obtain ⟨he, hv⟩ := hi
  unfold assign
  cases target with
  | none =>
    rw [Visit.yields_pure]
    exact ⟨.refl m, rfl, hm, fun _ => ⟨Set.mem_univ _, hv.2⟩⟩
  | some e =>
    have he : e ∈ X := hB (he e rfl)
    obtain ⟨s', hs', hcovered⟩ := write_covered hm he hv.2
    rw [Visit.yields_bind, Visit.yields_update]
    refine ⟨s', hs', ?_⟩
    rw [Visit.yields_bind, Visit.yields_state, Visit.yields_pure]
    exact ⟨⟨rfl, rfl, rfl, rfl⟩, rfl, hcovered, fun _ => ⟨Set.mem_univ _, classOf_covered hcovered he⟩⟩

end CopyAnalysis

open CopyAnalysis

variable {ctx : Context CopyClass} {usual : Call CopyClass → Visit CopyClass CopyClass}

/-- The copy analysis keeps to bounds. -/
theorem copies_keeps (handling : ctx.config.calls.handling = .none) (husual : IsUsual copies ctx usual) :
    classes.Sound copies ctx usual := by
  have few : ∀ T, classes.few T := fun _ => trivial
  have nothing : ∀ X : Set Entity, classes.mentions .unknown ⊆ X := fun X => by
    rw [show classes.mentions .unknown = ∅ from CopyClass.mentioned_unknown]
    exact Set.empty_subset X
  have escapes : classes.Escapes copies := escapes_of_covered few fun X e he s hs =>
    write_covered hs he ((mentioned_missing e).trans (Set.singleton_subset_iff.2 he))
  have unknown : classes.Keeps Domain.copies (fun _ _ _ => True) (fun op => pure (copies.unknownValue op)) classes.Says :=
    .of_pure few fun _ X _ _ => nothing X
  have unknownAt : ∀ (op : Operation) {ι : Type} {admits : Bounds CopyClass → Set Entity → ι → Prop},
      classes.Keeps Domain.copies admits (fun _ => pure (copies.unknownValue op)) classes.Says :=
    fun op => .of_pure few fun _ X _ _ => nothing X
  exact {
    few_of_finite := fun _ _ => trivial
    mentions_finite := CopyClass.mentioned_finite
    mentions_missing := mentioned_missing
    mentions_merge := CopyClass.mentioned_merge
    mentions_widen := fun a b => by
      show (State.widenValue Domain.copies a b).mentioned ⊆ _
      rw [CopyClass.widenValue_eq]
      exact CopyClass.mentioned_merge a b
    descends := CopyClass.wellFounded_widen
    initial := exists_initialState fun _ _ => ⟨_, rfl⟩
    location := fun op _ _ => (Set.finite_singleton (ctx.locationOf op)).subset (by rintro _ ⟨_, _, rfl⟩; rfl)
    literal := fun op _ => unknownAt op
    reference := fun _ => .of_read few mentioned_missing CopyClass.mentioned_unknown
    assign := fun _ => assign_keeps
    create := fun op => unknownAt op
    createArray := fun op => unknownAt op
    binary := fun op _ => unknownAt op
    convert := fun _ => Keeps.of_pure few (f := fun v => v) fun _ _ _ hv => hv.2
    invoke := keeps_usual handling husual escapes unknown
    bottom := .of_pure few fun _ X _ _ => by
      rw [show classes.mentions copies.domain.bottom = ∅ from CopyClass.mentioned_unknown]
      exact Set.empty_subset X
    unknown := unknown
    forget := fun e => .of_update few fun _ _ _ s _ he hs => forget_covered hs he }

end Analysis

end Dataflow
