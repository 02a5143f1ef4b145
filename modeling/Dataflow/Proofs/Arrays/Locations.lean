import Dataflow.Analysis.PointsTo
import Dataflow.Proofs.Arrays.Solution
import Dataflow.Proofs.PointsTo.Values
import Dataflow.Proofs.Variables.Pointwise

/-!
# Where the array is

A local that holds the array points to the operation that made it, as far as the points-to analysis says anything about
where it points.

## What is proved

`locations_sound` for the hooks, and `solve_locations` for solutions. Stores into elements have no effect on locals, so
nothing needs to be known about which cells are stored into, or read.
-/

namespace Dataflow

namespace PointsTo

variable {l : Location} {a b : PointsTo}

/-- The value may point to the location. -/
def MayBe (l : Location) (a : PointsTo) : Prop := a.isUnknown = true ∨ l ∈ a.locations

theorem unknownWith_mayBe (l : Location) (n : Nullness) : MayBe l (unknownWith n) := by
  cases n <;> exact .inl rfl

theorem merge_mayBe (h : MayBe l a ∨ MayBe l b) : MayBe l (merge a b) := by
  by_cases hab : a = b
  · rw [← hab, merge_self]
    exact h.elim id fun hb => hab ▸ hb
  · unfold merge
    rw [if_neg hab]
    split
    case h_10 =>
      refine .inr (FinSet.mem_unionList.2 ?_)
      simpa [MayBe, isUnknown, locations] using h
    case h_11 => exact unknownWith_mayBe l _
    all_goals simp_all [MayBe, isUnknown, locations]

theorem widenValue_mayBe (h : MayBe l b) : MayBe l (State.widenValue Domain.pointsTo a b) := by
  rcases widenValue_eq a b with ⟨heq, hold⟩ | heq
  · rw [heq, ← hold]
    exact merge_mayBe (.inr h)
  · rw [heq]
    exact unknownWith_mayBe l _

end PointsTo

namespace Arrays

variable {V Ω : Type}

/-- Where the array is that an operation made. -/
def allocationOf (ctx : Context V) (site : OperationInfo) : Location :=
  .allocation site.id ctx.owner site.type ctx.callSites

/-- If the value is the array, the abstract value may point to it. -/
def Locates (ctx : Context V) (a : PointsTo) (v : Value Ω) : Prop :=
  ∀ site, v = .array site → PointsTo.MayBe (allocationOf ctx site) a

/-- Every local with a value holds one that its abstract value allows. -/
abbrev localsAllow (D : Domain V) (owner : Symbol) (allows : V → Value Ω → Prop) : Reading V (Value Ω) :=
  .pointwise D owner allows fun _ => True

/-- Locals that hold the array may point to it. -/
def locations (Ω : Type) (ctx : Context PointsTo) : Account PointsTo Ω where
  fits s mem := (localsAllow Domain.pointsTo ctx.owner (Locates ctx)).fits s mem.vars
  describes := Locates ctx
  allowed := fun _ _ => True

/-- Every hook keeps the array where it may be. -/
theorem locations_sound (may : Reads Ω) (ctx : Context PointsTo) :
    (locations Ω ctx).Sound may Analysis.pointsTo ctx where
  reference := reference_ensures (fun _ _ => rfl) fun _ => rfl
  assign := by
    intro op e a m
    cases e with
    | none => exact (Visit.ensures_pure _ _ _).2 ⟨rfl, rfl⟩
    | some e =>
      show Visit.Ensures (do
        Visit.update fun s => .ok (State.write Domain.pointsTo e a s)
        return a) m _
      rw [Visit.ensures_bind, Visit.ensures_update]
      intro s hs
      rw [Visit.ensures_pure, ← Except.ok.inj hs]
      exact ⟨rfl, rfl⟩
  merge := by
    intro s t mem h
    have locals : (localsAllow Domain.pointsTo ctx.owner (Locates ctx)).fits s mem.vars ∨
        (localsAllow Domain.pointsTo ctx.owner (Locates ctx)).fits t mem.vars := h
    exact Reading.fits_merge_of_values PointsTo.merge_self (fun a b v h site hv =>
      PointsTo.merge_mayBe (h.imp (fun h => h site hv) fun h => h site hv)) locals
  widen := by
    intro s t mem h
    have locals : (localsAllow Domain.pointsTo ctx.owner (Locates ctx)).fits t mem.vars := h
    exact Reading.fits_widen_of_values PointsTo.merge_self
      (fun a b v h site hv => PointsTo.widenValue_mayBe (h site hv)) locals
  initial := fun s _ x v hx => by cases hx
  literal := fun op l site h => by cases h
  localVar := fun s mem x v h hx => h x v hx
  element := fun i j x indices s mem site cells position _ _ _ _ _ site' h => by cases h
  binary := by
    intro op operator a b m
    show Visit.Ensures (Analysis.PointsToAnalysis.binary ctx op operator) m _
    unfold Analysis.PointsToAnalysis.binary Analysis.PointsToAnalysis.allocation
    split
    · rw [Visit.ensures_check]
      exact fun c _ => ⟨rfl, fun u v w _ _ _ site h => by cases h⟩
    · rw [Visit.ensures_pure]
      exact ⟨rfl, fun u v w _ _ _ site h => by cases h⟩
  creation := by
    intro i dimensions m
    show Visit.Ensures (Analysis.PointsToAnalysis.allocation ctx (.arrayCreation i dimensions)) m _
    unfold Analysis.PointsToAnalysis.allocation
    rw [Visit.ensures_check]
    refine fun a ha => ⟨rfl, fun site h => ?_⟩
    obtain rfl := PointsTo.eq_known_of_ofLocation ha
    cases h
    exact .inr (List.mem_singleton.2 rfl)
  make := fun s mem site cells h _ => h
  set := by
    intro s mem x a v h ha
    show (localsAllow Domain.pointsTo ctx.owner (Locates ctx)).fits
      (State.write Domain.pointsTo (.localVar x ctx.owner) a s) (mem.vars.set x (some v))
    rw [State.write_of_isMethodLocal _ _ _ rfl]
    refine Reading.fits_insert h fun w hw => ?_
    rw [← Option.some.inj hw]
    exact ha
  store := by
    intro i j x indices s₀ s mem site cells position a d h _ _ _ _
    have locals : (localsAllow Domain.pointsTo ctx.owner (Locates ctx)).fits s mem.vars := h
    refine Reading.fits_of_valueOr_eq locals fun y => ?_
    show State.valueOr Domain.pointsTo (written Analysis.pointsTo (elementAt _ _ _ _) a s) _ = _
    unfold elementAt
    split
    · exact State.valueOr_write_of_isMethodLocal _ _ _ rfl fun he => by cases he
    · rfl
  forget := by
    intro x s s' mem h hs
    obtain rfl := Except.ok.inj hs
    have locals : (localsAllow Domain.pointsTo ctx.owner (Locates ctx)).fits s mem.vars := h
    exact Reading.fits_erase locals

/-- Whenever a local that holds the array is read, the value that the solution has for the reference may be the array. -/
theorem solve_locations {may : Reads Ω} {ctx : Context PointsTo} {ledger ledger' : Ledger PointsTo}
    {sol : Solution PointsTo} (h : (Analysis.pointsTo.solve ctx).run ledger = (.ok sol, ledger'))
    (valid : ctx.graph.Valid) (shaped : ctx.graph.OverArray) (distinct : ctx.graph.DistinctIds) {b : Block}
    {op : Operation} {ops : List Operation} {mem : Memory Ω} (hreached : Reached may ctx.graph b (op :: ops) mem)
    {o : Operation} {site : OperationInfo} (hev : Emits may op mem ⟨o, .array site⟩) :
    ∃ a, sol.valueAt o.id = some a ∧ PointsTo.MayBe (allocationOf ctx site) a := by
  obtain ⟨a, ha, hdescribes⟩ := run_explained (locations_sound may ctx) valid shaped distinct h
    (fun _ _ _ _ _ _ _ _ _ => trivial) hreached hev
  exact ⟨a, ha, hdescribes site rfl⟩

end Arrays

end Dataflow
