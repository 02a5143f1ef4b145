import Dataflow.Proofs.State.Aliases
import Mathlib.Data.List.Zip

/-!
# Independent writes

Two entities that are no aliases may nevertheless share one: a field of either of two boxes is an alias of the field of
the one and of the field of the other. Writes to those two meet in it.

## The notions

* `Analysis.WritesCommute`: two writes lead to the same state in either order.

## What is proved

Aliases are aliases of each other (`Entity.mayAlias_comm`). So of two writes to entities that are no aliases neither
changes what the other one is to, and what may be either gains both values, in whichever order (`Analysis.writes_commute`).
-/

namespace Dataflow

/-! ### Aliases of each other -/

theorem ElementIndex.mayEqual_comm (i j : ElementIndex) : i.mayEqual j = j.mayEqual i := by
  cases i <;> cases j <;> simp [mayEqual, Bool.beq_comm]

namespace Entity

theorem sameKind_comm (a b : Entity) : a.sameKind b = b.sameKind a := by
  cases a <;> cases b
  case member.member => exact Bool.beq_comm
  case element.element _ is _ _ js _ =>
    have positions : ((is.zip js).all fun p => p.1.mayEqual p.2) = (js.zip is).all fun p => p.1.mayEqual p.2 := by
      rw [← List.zip_swap js is, List.all_map]
      exact congrArg _ (funext fun p => ElementIndex.mayEqual_comm p.2 p.1)
    show (is.length == js.length && (is.zip js).all fun p => p.1.mayEqual p.2) =
      (js.length == is.length && (js.zip is).all fun p => p.1.mayEqual p.2)
    rw [positions, Bool.beq_comm]
  all_goals rfl

/-- A field that is the same as a static one is static. -/
theorem isStatic_of_sameKind {a b : Entity} (h : a.sameKind b = true) : a.isStatic = b.isStatic := by
  cases a <;> cases b <;> simp_all [sameKind, isStatic]

/-- That two points-to values have an object in common is said in one of two ways. -/
theorem meets_comm (p q : PointsTo) :
    p.heapLocations.any q.locations.contains = q.heapLocations.any p.locations.contains := by
  rw [Bool.eq_iff_iff]
  simp only [PointsTo.heapLocations, List.any_eq_true, List.mem_filter, List.contains_iff_mem]
  constructor
  · exact fun ⟨l, ⟨hp, object⟩, hq⟩ => ⟨l, ⟨hq, object⟩, hp⟩
  · exact fun ⟨l, ⟨hq, object⟩, hp⟩ => ⟨l, ⟨hp, object⟩, hq⟩

/-- A write to one entity may change another one if it may the other way round. -/
theorem mayAlias_comm (a b : Entity) : a.mayAlias b = b.mayAlias a := by
  unfold mayAlias
  rw [sameKind_comm a b, meets_comm a.owner b.owner, Bool.or_comm a.hasUnknownOwner]
  by_cases same : a = b
  · rw [if_pos same, if_pos same.symm]
  · rw [if_neg same, if_neg (Ne.symm same)]
    cases kind : b.sameKind a with
    | false => rfl
    | true => rw [isStatic_of_sameKind kind]

theorem mayAlias_self (a : Entity) : a.mayAlias a = true := by
  simp [mayAlias]

end Entity

/-! ### Writes -/

/-- Two writes may be swapped if they are to entities that are no aliases. -/
theorem State.write_comm_of_apart {V : Type} {P : V → Prop} {D : Domain V} {s : State V} {x y : Entity × V}
    (law : IsSemilattice P D.merge D.top) (hs : s.Each P) (hx : P x.2) (hy : P y.2)
    (apart : x.1.mayAlias y.1 = false) :
    write D x.1 x.2 (write D y.1 y.2 s) = write D y.1 y.2 (write D x.1 x.2 s) := by
  have hne : x.1 ≠ y.1 := fun same => by
    rw [same, Entity.mayAlias_self] at apart
    cases apart
  refine write_comm law hs hx hy hne ?_
  -- neither of the two gains anything from the write to the other one
  intro z hz w hw different touched
  rcases List.mem_pair.1 hz with rfl | rfl <;> rcases List.mem_pair.1 hw with rfl | rfl
  · exact absurd rfl different
  · rw [Entity.mayAlias_comm, apart] at touched
    cases touched
  · rw [apart] at touched
    cases touched
  · exact absurd rfl different

namespace Analysis

variable {V : Type}

/-- Two writes lead to the same state in either order. -/
def WritesCommute (A : Analysis V) (s : State V) (x y : Entity × V) : Prop :=
  ∃ t, (A.write x.1 x.2 s >>= A.write y.1 y.2) = .ok t ∧ (A.write y.1 y.2 s >>= A.write x.1 x.2) = .ok t

theorem writesCommute_of_apart {A : Analysis V} {P : V → Prop} {s : State V} {x y : Entity × V}
    (plain : A.write = fun e v s => .ok (State.write A.domain e v s))
    (law : IsSemilattice P A.domain.merge A.domain.top) (hs : s.Each P) (hx : P x.2) (hy : P y.2)
    (apart : x.1.mayAlias y.1 = false) : A.WritesCommute s x y := by
  refine ⟨State.write A.domain y.1 y.2 (State.write A.domain x.1 x.2 s), ?_, ?_⟩
  · rw [plain]
    rfl
  · rw [plain, ← State.write_comm_of_apart law hs hx hy apart]
    rfl

/-- **Independent writes commute.** In the analyses of references, of literal content and of taint writes to two
entities that are no aliases lead to the same state in either order, also if a third one is an alias of both. -/
theorem writes_commute (rules : TaintRules) (e₁ e₂ : Entity) (apart : e₁.mayAlias e₂ = false) :
    (∀ s v₁ v₂, s.Each PointsTo.Valid → v₁.Valid → v₂.Valid → pointsTo.WritesCommute s (e₁, v₁) (e₂, v₂)) ∧
    (∀ s v₁ v₂, s.Each Content.IsSmall → v₁.IsSmall → v₂.IsSmall → contents.WritesCommute s (e₁, v₁) (e₂, v₂)) ∧
    (∀ s v₁ v₂, (taint rules).WritesCommute s (e₁, v₁) (e₂, v₂)) :=
  ⟨fun _ _ _ hs h₁ h₂ => writesCommute_of_apart rfl PointsTo.isSemilattice hs h₁ h₂ apart,
    fun _ _ _ hs h₁ h₂ => writesCommute_of_apart rfl Content.isSemilattice hs h₁ h₂ apart,
    fun _ _ _ => writesCommute_of_apart rfl taint_isSemilattice (fun _ _ _ => trivial) trivial trivial apart⟩

open Boxes in
/-- The field of either box is an alias of the fields of both. It gains what is stored into the one and into the other,
in either order. -/
theorem writes_commute_boxes :
    let second : Entity := .member content (.known [box 1] .notNull)
    let s : State Content := State.empty.insert either (.ofLiteral (.integer 0))
    first.mayAlias second = false ∧ first.mayAlias either = true ∧ second.mayAlias either = true ∧
      contents.WritesCommute s (first, .ofLiteral (.integer 1)) (second, .ofLiteral (.integer 2)) := by
  intro second s
  have apart : first.mayAlias second = false := by decide +kernel
  have small (l : Literal) : (Content.ofLiteral l).IsSmall := (Content.Obtained.literal l).isSmall
  obtain ⟨-, contents, -⟩ := writes_commute rules first second apart
  exact ⟨apart, by decide +kernel, by decide +kernel,
    contents s _ _ (State.each_empty.insert _ (small _)) (small _) (small _)⟩

end Analysis

end Dataflow
