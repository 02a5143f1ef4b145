import Dataflow.Analysis.Contents
import Dataflow.Proofs.Contents.Values
import Dataflow.Proofs.Lattice.Chains
import Dataflow.Proofs.Settling.Bounds

/-!
# Literal content keeps to bounds

Which literals an entity may be has no part in how storage is named. So the analysis of literal content
can do with any number of values, and it owes only that it names no more than it is given: besides the targets
of stores these are the copies of targets, which are fixed before the run.

## What is proved

`contents_keeps`. An operator on contents always has a result (`Content.binary_eq`).
-/

namespace Dataflow

namespace Analysis

open Scope

variable {ctx : Context Content} {usual : Call Content → Visit Content Content}

/-- The entities that are copies of some target, as was found out before. -/
theorem copiesAfter_finite (ctx : Context Content) (op : Operation) :
    {a | ∃ e, a ∈ ContentAnalysis.copiesAfter ctx op e}.Finite := by
  cases hc : ctx.copies.bind (·.valueAt op.id) with
  | none =>
    refine Set.finite_empty.subset ?_
    rintro a ⟨e, ha⟩
    simp [ContentAnalysis.copiesAfter, hc] at ha
  | some c =>
    refine (List.finite_toSet c.members.toList).subset ?_
    rintro a ⟨e, ha⟩
    simp only [ContentAnalysis.copiesAfter, hc] at ha
    split at ha
    · rw [FinSet.mem_toList, FinSet.mem_erase] at ha
      exact FinSet.mem_toList.2 ha.2
    · cases ha

theorem contents_assign_keeps (op : Operation) :
    (loose Content).Keeps Domain.contents (fun B X i => (loose Content).Names B X i.1 ∧ (loose Content).Says B X i.2)
      (fun i : Option Entity × Content => ContentAnalysis.assign ctx op i.1 i.2) (loose Content).Says := by
  refine Keeps.of_covered loose_few (copiesAfter_finite ctx op) fun B X i m hB hN hi hm _ => ?_
  obtain ⟨target, v⟩ := i
  obtain ⟨he, hv⟩ := hi
  unfold ContentAnalysis.assign
  cases target with
  | none =>
    rw [Visit.yields_pure]
    exact ⟨.refl m, rfl, hm, fun _ => ⟨Set.mem_univ _, Set.empty_subset _⟩⟩
  | some e =>
    rw [Visit.yields_bind, Visit.yields_state, Visit.yields_bind, Visit.yields_setState, Visit.yields_pure]
    refine ⟨⟨rfl, rfl, rfl, rfl⟩, rfl, ?_, fun _ => ⟨Set.mem_univ _, Set.empty_subset _⟩⟩
    have written : (loose Content).Covered X (State.write Domain.contents e v m.state) :=
      hm.write (fun _ => Set.empty_subset _) (fun _ _ => Set.empty_subset _) (hB (he e rfl)) hv.2
    have copies : ∀ a ∈ ContentAnalysis.copiesAfter ctx op e, a ∈ X := fun a ha => hN ⟨e, ha⟩
    generalize ContentAnalysis.copiesAfter ctx op e = l at copies
    generalize State.write Domain.contents e v m.state = s at written
    induction l generalizing s with
    | nil => exact written
    | cons a l ih =>
      exact ih (fun b hb => copies b (List.mem_cons_of_mem _ hb)) (s.insert a v)
        (written.insert (copies a List.mem_cons_self) hv.2)

/-- The analysis of literal content keeps to bounds. -/
theorem contents_keeps (handling : ctx.config.calls.handling = .none) (husual : IsUsual contents ctx usual) :
    (loose Content).Sound contents ctx usual := by
  have few : ∀ T, (loose Content).few T := loose_few
  have missing : ∀ e, (loose Content).mentions (Domain.contents.missing e) ⊆ {e} := fun _ => Set.empty_subset _
  have escapes : (loose Content).Escapes contents := escapes_of_covered few fun X e he s hs =>
    ⟨_, rfl, hs.write missing (fun _ _ => Set.empty_subset _) he (Set.empty_subset _)⟩
  exact {
    few_of_finite := fun _ _ => trivial
    mentions_finite := fun _ => Set.finite_empty
    mentions_missing := missing
    mentions_merge := fun _ _ => Set.empty_subset _
    mentions_widen := fun _ _ => Set.empty_subset _
    descends := Content.ranks.wellFounded_widenValue
    initial := exists_initialState fun _ _ => ⟨_, rfl⟩
    location := fun op _ _ => (Set.finite_singleton (ctx.locationOf op)).subset (by rintro _ ⟨_, _, rfl⟩; rfl)
    literal := fun _ _ => .of_pure few fun _ _ _ _ => Set.empty_subset _
    reference := fun _ => .of_read few missing rfl
    assign := contents_assign_keeps
    create := fun op => Keeps.of_pure few (f := fun _ => contents.unknownValue op) fun _ _ _ _ => Set.empty_subset _
    createArray := fun op => Keeps.of_pure few (f := fun _ => contents.unknownValue op) fun _ _ _ _ => Set.empty_subset _
    binary := fun _ operator => Keeps.of_covered few Set.finite_empty fun B X i m _ _ _ hm _ =>
      (Visit.yields_check _ _ _).2 ⟨_, Content.binary_eq operator i.1 i.2, .refl m, rfl, hm, fun _ =>
        ⟨Set.mem_univ _, Set.empty_subset _⟩⟩
    convert := fun _ => Keeps.of_pure few (f := fun v => v) fun _ _ _ _ => Set.empty_subset _
    invoke := keeps_usual handling husual escapes (.of_pure few fun _ _ _ _ => Set.empty_subset _)
    bottom := .of_pure few fun _ _ _ _ => Set.empty_subset _
    unknown := .of_pure few fun _ _ _ _ => Set.empty_subset _
    forget := fun e => .of_update few fun _ _ _ s _ _ hs => ⟨_, rfl, hs.erase e⟩ }

end Analysis

end Dataflow
