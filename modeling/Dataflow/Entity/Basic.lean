import Dataflow.Operation.Basic
import Dataflow.Lattice.Nullness

/-!
# Entities, locations and points-to values

An entity names storage: a variable of a method, a field of the objects that a
points-to value describes, or a slot of such arrays. A points-to value is a set of
locations, and a location may stand for whatever object an entity held in the
beginning. The three notions therefore refer to each other.

Sets of locations and of captures are ascending lists, so that equal content is
an equal value. The order below serves that purpose only; it is linear, and only
equal values compare as equal.
-/

namespace Dataflow

mutual

/-- Names storage that holds a value. -/
inductive Entity where
  /-- A local or a parameter of a method. -/
  | localVar (symbol method : Symbol)
  /-- A compiler-generated temporary of a method. -/
  | temporary (capture : CaptureId) (method : Symbol) (type : Option TypeRef)
  /-- The receiver of a method. -/
  | receiver (method : Symbol)
  /-- A field of the objects at some locations. -/
  | member (field : Symbol) (owner : PointsTo)
  /-- A slot of the arrays at some locations. -/
  | element (array : PointsTo) (indices : List ElementIndex) (type : Option TypeRef)

/-- A position in an array. -/
inductive ElementIndex where
  /-- A known position. -/
  | constant (value : Int64)
  /-- The value that an entity holds. -/
  | entity (entity : Entity)
  /-- The result of an operation. -/
  | operation (id : OperationId)

/-- What a reference may point at. -/
inductive Location where
  /-- Nothing: the null reference. -/
  | null
  /-- Nothing that can be analysed, such as a number. -/
  | noLocation
  /-- The object that an operation creates at the end of a chain of calls. -/
  | allocation (operation : OperationId) (method : Symbol) (type : Option TypeRef)
      (callSites : List OperationId)
  /-- The object that an entity held in the beginning. -/
  | entity (entity : Entity)

/-- Where a reference may point, and whether it may be null. -/
inductive PointsTo where
  /-- Nothing is known yet. -/
  | undefined
  /-- The path cannot be taken. -/
  | invalid
  /-- Anywhere, or null. -/
  | unknown
  /-- Null. -/
  | unknownNull
  /-- Anywhere, but not null. -/
  | unknownNotNull
  /-- One of some locations. -/
  | known (locations : List Location) (nullness : Nullness)
  /-- The address of storage that one of some operations captured. -/
  | captures (operations : List OperationId)

end

deriving instance Repr for Entity, ElementIndex, Location, PointsTo

/-! ### The order -/

mutual

/-- Compares entities. -/
def Entity.cmp : Entity → Entity → Ordering
  | .localVar s m, .localVar s' m' => (compare s s').then (compare m m')
  | .localVar .., _ => .lt
  | .temporary .., .localVar .. => .gt
  | .temporary c m t, .temporary c' m' t' =>
    (compare c c').then ((compare m m').then (compare t t'))
  | .temporary .., _ => .lt
  | .receiver _, .localVar .. => .gt
  | .receiver _, .temporary .. => .gt
  | .receiver m, .receiver m' => compare m m'
  | .receiver _, _ => .lt
  | .member f o, .member f' o' => (compare f f').then (PointsTo.cmp o o')
  | .member .., .element .. => .lt
  | .member .., _ => .gt
  | .element a is t, .element a' is' t' =>
    (PointsTo.cmp a a').then ((ElementIndex.cmpList is is').then (compare t t'))
  | .element .., _ => .gt

/-- Compares positions. -/
def ElementIndex.cmp : ElementIndex → ElementIndex → Ordering
  | .constant a, .constant b => compare a b
  | .constant _, _ => .lt
  | .entity _, .constant _ => .gt
  | .entity a, .entity b => Entity.cmp a b
  | .entity _, .operation _ => .lt
  | .operation a, .operation b => compare a b
  | .operation _, _ => .gt

/-- Compares lists of positions. -/
def ElementIndex.cmpList : List ElementIndex → List ElementIndex → Ordering
  | [], [] => .eq
  | [], _ :: _ => .lt
  | _ :: _, [] => .gt
  | a :: as, b :: bs => (ElementIndex.cmp a b).then (ElementIndex.cmpList as bs)

/-- Compares locations. -/
def Location.cmp : Location → Location → Ordering
  | .null, .null => .eq
  | .null, _ => .lt
  | .noLocation, .null => .gt
  | .noLocation, .noLocation => .eq
  | .noLocation, _ => .lt
  | .allocation o m t c, .allocation o' m' t' c' =>
    (compare o o').then ((compare m m').then ((compare t t').then (compare c c')))
  | .allocation .., .entity _ => .lt
  | .allocation .., _ => .gt
  | .entity a, .entity b => Entity.cmp a b
  | .entity _, _ => .gt

/-- Compares lists of locations. -/
def Location.cmpList : List Location → List Location → Ordering
  | [], [] => .eq
  | [], _ :: _ => .lt
  | _ :: _, [] => .gt
  | a :: as, b :: bs => (Location.cmp a b).then (Location.cmpList as bs)

/-- Compares points-to values. -/
def PointsTo.cmp : PointsTo → PointsTo → Ordering
  | .undefined, .undefined => .eq
  | .undefined, _ => .lt
  | .invalid, .undefined => .gt
  | .invalid, .invalid => .eq
  | .invalid, _ => .lt
  | .unknown, .undefined => .gt
  | .unknown, .invalid => .gt
  | .unknown, .unknown => .eq
  | .unknown, _ => .lt
  | .unknownNull, .unknownNull => .eq
  | .unknownNull, .unknownNotNull => .lt
  | .unknownNull, .known .. => .lt
  | .unknownNull, .captures _ => .lt
  | .unknownNull, _ => .gt
  | .unknownNotNull, .unknownNotNull => .eq
  | .unknownNotNull, .known .. => .lt
  | .unknownNotNull, .captures _ => .lt
  | .unknownNotNull, _ => .gt
  | .known l n, .known l' n' => (Location.cmpList l l').then (compare n n')
  | .known .., .captures _ => .lt
  | .known .., _ => .gt
  | .captures c, .captures c' => compare c c'
  | .captures _, _ => .gt

end

/-! ### Only equal values compare as equal -/

mutual

theorem Entity.eq_of_cmp : (a b : Entity) → a.cmp b = .eq → a = b
  | .localVar _ _, b => by cases b <;> simp_all [Entity.cmp]
  | .temporary _ _ _, b => by cases b <;> simp_all [Entity.cmp]
  | .receiver _, b => by cases b <;> simp_all [Entity.cmp]
  | .member f o, b => by
    cases b <;> simp only [Entity.cmp, then_eq_iff, reduceCtorEq, false_implies]
    rintro ⟨h₁, h₂⟩
    rw [Std.LawfulEqCmp.eq_of_compare h₁, PointsTo.eq_of_cmp _ _ h₂]
  | .element a is t, b => by
    cases b <;> simp only [Entity.cmp, then_eq_iff, reduceCtorEq, false_implies]
    rintro ⟨h₁, h₂, h₃⟩
    rw [PointsTo.eq_of_cmp _ _ h₁, ElementIndex.eq_of_cmpList _ _ h₂,
      Std.LawfulEqCmp.eq_of_compare h₃]

theorem ElementIndex.eq_of_cmp : (a b : ElementIndex) → a.cmp b = .eq → a = b
  | .constant _, b => by cases b <;> simp_all [ElementIndex.cmp]
  | .entity a, b => by
    cases b <;> simp only [ElementIndex.cmp, reduceCtorEq, false_implies]
    intro h
    rw [Entity.eq_of_cmp _ _ h]
  | .operation _, b => by cases b <;> simp_all [ElementIndex.cmp]

theorem ElementIndex.eq_of_cmpList : (a b : List ElementIndex) →
    ElementIndex.cmpList a b = .eq → a = b
  | [], b => by cases b <;> simp [ElementIndex.cmpList]
  | a :: as, b => by
    cases b <;> simp only [ElementIndex.cmpList, then_eq_iff, reduceCtorEq, false_implies]
    rintro ⟨h₁, h₂⟩
    rw [ElementIndex.eq_of_cmp _ _ h₁, ElementIndex.eq_of_cmpList _ _ h₂]

theorem Location.eq_of_cmp : (a b : Location) → a.cmp b = .eq → a = b
  | .null, b => by cases b <;> simp [Location.cmp]
  | .noLocation, b => by cases b <;> simp [Location.cmp]
  | .allocation _ _ _ _, b => by cases b <;> simp_all [Location.cmp]
  | .entity a, b => by
    cases b <;> simp only [Location.cmp, reduceCtorEq, false_implies]
    intro h
    rw [Entity.eq_of_cmp _ _ h]

theorem Location.eq_of_cmpList : (a b : List Location) → Location.cmpList a b = .eq → a = b
  | [], b => by cases b <;> simp [Location.cmpList]
  | a :: as, b => by
    cases b <;> simp only [Location.cmpList, then_eq_iff, reduceCtorEq, false_implies]
    rintro ⟨h₁, h₂⟩
    rw [Location.eq_of_cmp _ _ h₁, Location.eq_of_cmpList _ _ h₂]

theorem PointsTo.eq_of_cmp : (a b : PointsTo) → a.cmp b = .eq → a = b
  | .undefined, b => by cases b <;> simp [PointsTo.cmp]
  | .invalid, b => by cases b <;> simp [PointsTo.cmp]
  | .unknown, b => by cases b <;> simp [PointsTo.cmp]
  | .unknownNull, b => by cases b <;> simp [PointsTo.cmp]
  | .unknownNotNull, b => by cases b <;> simp [PointsTo.cmp]
  | .known l n, b => by
    cases b <;> simp only [PointsTo.cmp, then_eq_iff, reduceCtorEq, false_implies]
    rintro ⟨h₁, h₂⟩
    rw [Location.eq_of_cmpList _ _ h₁, Std.LawfulEqCmp.eq_of_compare h₂]
  | .captures _, b => by cases b <;> simp_all [PointsTo.cmp]

end

/-! ### Comparing the other way round -/

theorem then_swap {o p : Ordering} : (o.then p).swap = o.swap.then p.swap := by
  cases o <;> rfl

mutual

theorem Entity.cmp_swap : (a b : Entity) → a.cmp b = (b.cmp a).swap
  | .localVar _ _, b => by
    cases b <;> simp [Entity.cmp, then_swap, ← Std.OrientedOrd.eq_swap]
  | .temporary _ _ _, b => by
    cases b <;> simp [Entity.cmp, then_swap, ← Std.OrientedOrd.eq_swap]
  | .receiver _, b => by
    cases b <;> simp [Entity.cmp, ← Std.OrientedOrd.eq_swap]
  | .member f o, b => by
    cases b <;> simp [Entity.cmp, then_swap, ← Std.OrientedOrd.eq_swap, ← PointsTo.cmp_swap o]
  | .element a is t, b => by
    cases b <;> simp [Entity.cmp, then_swap, ← Std.OrientedOrd.eq_swap, ← PointsTo.cmp_swap a,
      ← ElementIndex.cmpList_swap is]

theorem ElementIndex.cmp_swap : (a b : ElementIndex) → a.cmp b = (b.cmp a).swap
  | .constant _, b => by
    cases b <;> simp [ElementIndex.cmp, ← Std.OrientedOrd.eq_swap]
  | .entity a, b => by cases b <;> simp [ElementIndex.cmp, ← Entity.cmp_swap a]
  | .operation _, b => by
    cases b <;> simp [ElementIndex.cmp, ← Std.OrientedOrd.eq_swap]

theorem ElementIndex.cmpList_swap : (a b : List ElementIndex) →
    ElementIndex.cmpList a b = (ElementIndex.cmpList b a).swap
  | [], b => by cases b <;> simp [ElementIndex.cmpList]
  | a :: as, b => by
    cases b <;> simp [ElementIndex.cmpList, then_swap, ← ElementIndex.cmp_swap a,
      ← ElementIndex.cmpList_swap as]

theorem Location.cmp_swap : (a b : Location) → a.cmp b = (b.cmp a).swap
  | .null, b => by cases b <;> simp [Location.cmp]
  | .noLocation, b => by cases b <;> simp [Location.cmp]
  | .allocation _ _ _ _, b => by
    cases b <;> simp [Location.cmp, then_swap, ← Std.OrientedOrd.eq_swap]
  | .entity a, b => by cases b <;> simp [Location.cmp, ← Entity.cmp_swap a]

theorem Location.cmpList_swap : (a b : List Location) →
    Location.cmpList a b = (Location.cmpList b a).swap
  | [], b => by cases b <;> simp [Location.cmpList]
  | a :: as, b => by
    cases b <;> simp [Location.cmpList, then_swap, ← Location.cmp_swap a, ← Location.cmpList_swap as]

theorem PointsTo.cmp_swap : (a b : PointsTo) → a.cmp b = (b.cmp a).swap
  | .undefined, b => by cases b <;> simp [PointsTo.cmp]
  | .invalid, b => by cases b <;> simp [PointsTo.cmp]
  | .unknown, b => by cases b <;> simp [PointsTo.cmp]
  | .unknownNull, b => by cases b <;> simp [PointsTo.cmp]
  | .unknownNotNull, b => by cases b <;> simp [PointsTo.cmp]
  | .known l n, b => by
    cases b <;> simp [PointsTo.cmp, then_swap, ← Std.OrientedOrd.eq_swap, ← Location.cmpList_swap l]
  | .captures _, b => by
    cases b <;> simp [PointsTo.cmp, ← Std.OrientedOrd.eq_swap]

end

/-! ### Transitivity -/

/-- Two steps of a lexicographic comparison compose if their parts do. -/
theorem then_lt_trans {o₁ o₂ o₃ p₁ p₂ p₃ : Ordering} (lt : o₁ = .lt → o₂ = .lt → o₃ = .lt)
    (left : o₁ = .eq → o₃ = o₂) (right : o₂ = .eq → o₃ = o₁)
    (rest : p₁ = .lt → p₂ = .lt → p₃ = .lt) (h₁ : o₁.then p₁ = .lt) (h₂ : o₂.then p₂ = .lt) :
    o₃.then p₃ = .lt := by
  cases o₁ <;> cases o₂ <;> simp_all

/-- A step of a linear order composes. -/
theorem compare_then_lt_trans {α : Type} [Ord α] [Std.TransOrd α] {a b c : α} {p₁ p₂ p₃ : Ordering}
    (rest : p₁ = .lt → p₂ = .lt → p₃ = .lt) (h₁ : (compare a b).then p₁ = .lt)
    (h₂ : (compare b c).then p₂ = .lt) : (compare a c).then p₃ = .lt :=
  then_lt_trans Std.TransCmp.lt_trans Std.TransCmp.congr_left
    (fun h => (Std.TransCmp.congr_right h).symm) rest h₁ h₂

mutual

theorem Entity.cmp_lt_trans : (a b c : Entity) → a.cmp b = .lt → b.cmp c = .lt → a.cmp c = .lt
  | .localVar _ _, b, c => by
    cases b <;> cases c <;> simp only [Entity.cmp, reduceCtorEq, false_implies, imp_self,
      implies_true]
    exact compare_then_lt_trans Std.TransCmp.lt_trans
  | .temporary _ _ _, b, c => by
    cases b <;> cases c <;> simp only [Entity.cmp, reduceCtorEq, false_implies, imp_self,
      implies_true]
    exact compare_then_lt_trans (compare_then_lt_trans Std.TransCmp.lt_trans)
  | .receiver _, b, c => by
    cases b <;> cases c <;> simp only [Entity.cmp, reduceCtorEq, false_implies, imp_self,
      implies_true]
    exact Std.TransCmp.lt_trans
  | .member f o, b, c => by
    cases b <;> cases c <;> simp only [Entity.cmp, reduceCtorEq, false_implies, imp_self,
      implies_true]
    exact compare_then_lt_trans (PointsTo.cmp_lt_trans o _ _)
  | .element a is t, b, c => by
    cases b <;> cases c <;> simp only [Entity.cmp, reduceCtorEq, false_implies, imp_self,
      implies_true]
    exact then_lt_trans (PointsTo.cmp_lt_trans a _ _)
      (fun h => by rw [PointsTo.eq_of_cmp _ _ h]) (fun h => by rw [PointsTo.eq_of_cmp _ _ h])
      (then_lt_trans (ElementIndex.cmpList_lt_trans is _ _)
        (fun h => by rw [ElementIndex.eq_of_cmpList _ _ h])
        (fun h => by rw [ElementIndex.eq_of_cmpList _ _ h]) Std.TransCmp.lt_trans)

theorem ElementIndex.cmp_lt_trans : (a b c : ElementIndex) →
    a.cmp b = .lt → b.cmp c = .lt → a.cmp c = .lt
  | .constant _, b, c => by
    cases b <;> cases c <;> simp only [ElementIndex.cmp, reduceCtorEq, false_implies, imp_self,
      implies_true]
    exact Std.TransCmp.lt_trans
  | .entity a, b, c => by
    cases b <;> cases c <;> simp only [ElementIndex.cmp, reduceCtorEq, false_implies, imp_self,
      implies_true]
    exact Entity.cmp_lt_trans a _ _
  | .operation _, b, c => by
    cases b <;> cases c <;> simp only [ElementIndex.cmp, reduceCtorEq, false_implies, imp_self,
      implies_true]
    exact Std.TransCmp.lt_trans

theorem ElementIndex.cmpList_lt_trans : (a b c : List ElementIndex) →
    ElementIndex.cmpList a b = .lt → ElementIndex.cmpList b c = .lt →
    ElementIndex.cmpList a c = .lt
  | [], b, c => by
    cases b <;> cases c <;> simp only [ElementIndex.cmpList, reduceCtorEq, imp_self,
      implies_true]
  | a :: as, b, c => by
    cases b <;> cases c <;> simp only [ElementIndex.cmpList, reduceCtorEq, false_implies, imp_self,
      implies_true]
    exact then_lt_trans (ElementIndex.cmp_lt_trans a _ _)
      (fun h => by rw [ElementIndex.eq_of_cmp _ _ h]) (fun h => by rw [ElementIndex.eq_of_cmp _ _ h])
      (ElementIndex.cmpList_lt_trans as _ _)

theorem Location.cmp_lt_trans : (a b c : Location) →
    a.cmp b = .lt → b.cmp c = .lt → a.cmp c = .lt
  | .null, b, c => by
    cases b <;> cases c <;> simp only [Location.cmp, reduceCtorEq, imp_self,
      implies_true]
  | .noLocation, b, c => by
    cases b <;> cases c <;> simp only [Location.cmp, reduceCtorEq, false_implies, imp_self,
      implies_true]
  | .allocation _ _ _ _, b, c => by
    cases b <;> cases c <;> simp only [Location.cmp, reduceCtorEq, false_implies, imp_self,
      implies_true]
    exact compare_then_lt_trans
      (compare_then_lt_trans (compare_then_lt_trans Std.TransCmp.lt_trans))
  | .entity a, b, c => by
    cases b <;> cases c <;> simp only [Location.cmp, reduceCtorEq, false_implies, imp_self,
      implies_true]
    exact Entity.cmp_lt_trans a _ _

theorem Location.cmpList_lt_trans : (a b c : List Location) →
    Location.cmpList a b = .lt → Location.cmpList b c = .lt → Location.cmpList a c = .lt
  | [], b, c => by
    cases b <;> cases c <;> simp only [Location.cmpList, reduceCtorEq, imp_self,
      implies_true]
  | a :: as, b, c => by
    cases b <;> cases c <;> simp only [Location.cmpList, reduceCtorEq, false_implies, imp_self,
      implies_true]
    exact then_lt_trans (Location.cmp_lt_trans a _ _)
      (fun h => by rw [Location.eq_of_cmp _ _ h]) (fun h => by rw [Location.eq_of_cmp _ _ h])
      (Location.cmpList_lt_trans as _ _)

theorem PointsTo.cmp_lt_trans : (a b c : PointsTo) →
    a.cmp b = .lt → b.cmp c = .lt → a.cmp c = .lt
  | .undefined, b, c => by
    cases b <;> cases c <;> simp only [PointsTo.cmp, reduceCtorEq, imp_self,
      implies_true]
  | .invalid, b, c => by
    cases b <;> cases c <;> simp only [PointsTo.cmp, reduceCtorEq, false_implies, imp_self,
      implies_true]
  | .unknown, b, c => by
    cases b <;> cases c <;> simp only [PointsTo.cmp, reduceCtorEq, false_implies, imp_self,
      implies_true]
  | .unknownNull, b, c => by
    cases b <;> cases c <;> simp only [PointsTo.cmp, reduceCtorEq, false_implies, imp_self,
      implies_true]
  | .unknownNotNull, b, c => by
    cases b <;> cases c <;> simp only [PointsTo.cmp, reduceCtorEq, false_implies, imp_self,
      implies_true]
  | .known l n, b, c => by
    cases b <;> cases c <;> simp only [PointsTo.cmp, reduceCtorEq, false_implies, imp_self,
      implies_true]
    exact then_lt_trans (Location.cmpList_lt_trans l _ _)
      (fun h => by rw [Location.eq_of_cmpList _ _ h]) (fun h => by rw [Location.eq_of_cmpList _ _ h])
      Std.TransCmp.lt_trans
  | .captures _, b, c => by
    cases b <;> cases c <;> simp only [PointsTo.cmp, reduceCtorEq, false_implies, imp_self,
      implies_true]
    exact Std.TransCmp.lt_trans

end

/-! ### Instances -/

/-- A comparison is linear if it can be turned round, composes, and tells values apart. -/
theorem transCmp_of {α : Type} {cmp : α → α → Ordering} (swap : ∀ a b, cmp a b = (cmp b a).swap)
    (eq : ∀ a b, cmp a b = .eq → a = b)
    (trans : ∀ a b c, cmp a b = .lt → cmp b c = .lt → cmp a c = .lt) : Std.TransCmp cmp where
  eq_swap {a b} := swap a b
  isLE_trans {a b c} h₁ h₂ := by
    cases hab : cmp a b with
    | gt => simp [hab] at h₁
    | eq =>
      rw [eq a b hab]
      exact h₂
    | lt =>
      cases hbc : cmp b c with
      | gt => simp [hbc] at h₂
      | eq =>
        rw [← eq b c hbc, hab]
        rfl
      | lt =>
        rw [trans a b c hab hbc]
        rfl

instance : Ord Entity := ⟨Entity.cmp⟩
instance : Ord ElementIndex := ⟨ElementIndex.cmp⟩
instance : Ord Location := ⟨Location.cmp⟩
instance : Ord PointsTo := ⟨PointsTo.cmp⟩

instance : Std.TransOrd Entity := transCmp_of Entity.cmp_swap Entity.eq_of_cmp Entity.cmp_lt_trans

instance : Std.TransOrd ElementIndex :=
  transCmp_of ElementIndex.cmp_swap ElementIndex.eq_of_cmp ElementIndex.cmp_lt_trans

instance : Std.TransOrd Location :=
  transCmp_of Location.cmp_swap Location.eq_of_cmp Location.cmp_lt_trans

instance : Std.TransOrd PointsTo :=
  transCmp_of PointsTo.cmp_swap PointsTo.eq_of_cmp PointsTo.cmp_lt_trans

instance : Std.LawfulEqOrd Entity := lawfulEqOrd_of Entity.eq_of_cmp
instance : Std.LawfulEqOrd ElementIndex := lawfulEqOrd_of ElementIndex.eq_of_cmp
instance : Std.LawfulEqOrd Location := lawfulEqOrd_of Location.eq_of_cmp
instance : Std.LawfulEqOrd PointsTo := lawfulEqOrd_of PointsTo.eq_of_cmp

/-- Equality is decided by the comparison. -/
def decidableEqOfCompare {α : Type} [Ord α] [Std.TransOrd α] [Std.LawfulEqOrd α] : DecidableEq α :=
  fun a b => decidable_of_iff (compare a b = .eq) Std.LawfulEqCmp.compare_eq_iff_eq

instance : DecidableEq Entity := decidableEqOfCompare
instance : DecidableEq ElementIndex := decidableEqOfCompare
instance : DecidableEq Location := decidableEqOfCompare
instance : DecidableEq PointsTo := decidableEqOfCompare

end Dataflow
