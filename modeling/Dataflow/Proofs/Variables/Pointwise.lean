import Dataflow.Proofs.State.Pointwise
import Dataflow.Proofs.Variables.Boundary

/-!
# Readings variable by variable

Most analyses say of each variable by itself what it may hold. Then a store fits a state if
every variable with a value holds one that its abstract value allows, and what initial states,
merging, widening, stores and the ends of scopes owe comes down to what abstract values owe.
-/

namespace Dataflow

namespace Reading

variable {V C : Type}

/-- Every variable with a value holds one that its abstract value allows. -/
def pointwise (D : Domain V) (owner : Symbol) (allows : V → C → Prop) (allowed : Event C → Prop) :
    Reading V C where
  good := fun _ => True
  fits s σ := ∀ x v, σ x = some v → allows (State.valueOr D s (.localVar x owner)) v
  describes _ _ a v := allows a v
  allowed := allowed

variable {D : Domain V} {owner : Symbol} {allows : V → C → Prop} {allowed : Event C → Prop}
variable {s t : State V} {σ : Store C} {x : Symbol}

/-- A body starts with parameters that hold what the analysis assumes of them. -/
theorem fits_initialState {A : Analysis V} {ctx : Context V} {M : Meaning C} (entry : ctx.entry = none)
    (h : A.initialState ctx = .ok s) (starts : Starts M ctx.graph σ)
    (parameters : ∀ x a v, A.parameterValue (.localVar x ctx.owner) = .ok a → M.parameter x v → allows a v) :
    (pointwise A.domain ctx.owner allows allowed).fits s σ := by
  intro x v hx
  obtain ⟨hparameter, hv⟩ := starts x v hx
  rw [Analysis.initialState_eq_defaultEntry entry] at h
  rcases Analysis.valueOr_defaultEntry h (.localVar x ctx.owner) with ⟨-, hvalue⟩ | ⟨hnot, -⟩
  · exact parameters x _ v hvalue hv
  · exact absurd (Analysis.localVar_mem_initialEntities.2 hparameter) hnot

theorem fits_merge_of_values (idem : ∀ a, D.merge a a = a)
    (values : ∀ a b v, allows a v ∨ allows b v → allows (D.merge a b) v)
    (h : (pointwise D owner allows allowed).fits s σ ∨ (pointwise D owner allows allowed).fits t σ) :
    (pointwise D owner allows allowed).fits (State.merge D s t) σ := by
  intro x v hx
  rw [State.valueOr_merge idem]
  exact values _ _ v (h.imp (fun hs => hs x v hx) fun ht => ht x v hx)

theorem fits_widen_of_values [DecidableEq V] (idem : ∀ a, D.merge a a = a)
    (values : ∀ a b v, allows b v → allows (State.widenValue D a b) v)
    (h : (pointwise D owner allows allowed).fits t σ) :
    (pointwise D owner allows allowed).fits (State.widen D s t) σ := by
  intro x v hx
  rw [State.valueOr_widen idem]
  exact values _ _ v (h x v hx)

/-- A store into a variable. -/
theorem fits_insert {a : V} {v : Option C} (h : (pointwise D owner allows allowed).fits s σ)
    (hv : ∀ w, v = some w → allows a w) :
    (pointwise D owner allows allowed).fits (s.insert (.localVar x owner) a) (σ.set x v) := by
  intro y w hy
  by_cases hyx : y = x
  · rw [hyx, Store.set_self] at hy
    rw [hyx, State.valueOr_insert_self]
    exact hv w hy
  · rw [Store.set_of_ne σ v hyx] at hy
    rw [State.valueOr_insert_ne D _ _ fun he => hyx (by cases he; rfl)]
    exact h y w hy

/-- The end of a variable's scope. -/
theorem fits_erase (h : (pointwise D owner allows allowed).fits s σ) :
    (pointwise D owner allows allowed).fits (s.erase (.localVar x owner)) (σ.set x none) := by
  intro y w hy
  by_cases hyx : y = x
  · rw [hyx, Store.set_self] at hy
    cases hy
  · rw [Store.set_of_ne σ none hyx] at hy
    rw [State.valueOr_erase_ne D _ fun he => hyx (by cases he; rfl)]
    exact h y w hy

/-- If the values of other entities change, nothing changes for variables. -/
theorem fits_of_valueOr_eq (h : (pointwise D owner allows allowed).fits s σ)
    (same : ∀ x, State.valueOr D t (.localVar x owner) = State.valueOr D s (.localVar x owner)) :
    (pointwise D owner allows allowed).fits t σ := by
  intro x v hx
  rw [same]
  exact h x v hx

/-- Code that is not known may store anything, if the escaped value allows anything. -/
theorem escapes_pointwise {A : Analysis V} (write : ∀ e a s, A.write e a s = .ok (State.write A.domain e a s))
    (any : ∀ e v, allows (A.escapedValue e) v) : (pointwise A.domain owner allows allowed).Escapes A owner where
  overwrite := by
    intro x s s' _ hw
    rw [write] at hw
    obtain rfl := Except.ok.inj hw
    refine ⟨trivial, fun σ v hσ => ?_⟩
    rw [State.write_of_isMethodLocal _ _ _ rfl]
    exact fits_insert hσ fun w _ => any _ w
  others := by
    intro e s s' he _ hw
    rw [write] at hw
    obtain rfl := Except.ok.inj hw
    refine ⟨trivial, fun σ hσ => fits_of_valueOr_eq hσ fun x => ?_⟩
    have hne : Entity.localVar x owner ≠ e := by
      rintro rfl
      cases he
    exact State.valueOr_write_of_isMethodLocal _ _ _ rfl hne

end Reading

end Dataflow
