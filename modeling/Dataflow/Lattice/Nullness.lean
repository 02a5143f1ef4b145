import Dataflow.Collections.Comparison
import Dataflow.Lattice.Basic

/-!
# Nullness

Whether a reference may be null. `undefined` is the least value. `invalid`, the
nullness on a path that cannot be taken, changes nothing when it is merged. `null`
and `notNull` are incomparable, and `maybeNull` is above both.
-/

namespace Dataflow

/-- Whether a reference may be null. -/
inductive Nullness where
  /-- Nothing is known yet. -/
  | undefined
  /-- The path cannot be taken. -/
  | invalid
  /-- Null on every path. -/
  | null
  /-- Not null on any path. -/
  | notNull
  /-- Anything. -/
  | maybeNull
  deriving DecidableEq, Repr

namespace Nullness

/-- The place of the value in the order in which values are listed. -/
def rank : Nullness → Nat
  | undefined => 0
  | invalid => 1
  | null => 2
  | notNull => 3
  | maybeNull => 4

theorem rank_inj {a b : Nullness} (h : a.rank = b.rank) : a = b := by
  cases a <;> cases b <;> simp_all [rank]

instance : Ord Nullness := ⟨compareOn rank⟩

instance : Std.TransOrd Nullness := inferInstanceAs (Std.TransCmp (compareOn rank))

instance : Std.LawfulEqOrd Nullness :=
  lawfulEqOrd_of fun _ _ h => rank_inj (compareOn_eq_iff.1 h)

/-- Whether the value says something about a reference. -/
def isDefinite : Nullness → Bool
  | null | notNull | maybeNull => true
  | undefined | invalid => false

/-- What holds if either value may hold. -/
def merge : Nullness → Nullness → Nullness
  | undefined, b => b
  | a, undefined => a
  | invalid, b => b
  | a, invalid => a
  | a, b => if a = b then a else maybeNull

/-- The least value. -/
def bottom : Nullness := undefined

/-- The greatest value. -/
def top : Nullness := maybeNull

/-- The name of the value. -/
def text : Nullness → String
  | undefined => "Undefined"
  | invalid => "Invalid"
  | null => "Null"
  | notNull => "NotNull"
  | maybeNull => "MaybeNull"

theorem merge_comm : ∀ a b : Nullness, a.merge b = b.merge a := by
  intro a b
  cases a <;> cases b <;> rfl

theorem merge_assoc : ∀ a b c : Nullness, (a.merge b).merge c = a.merge (b.merge c) := by
  intro a b c
  cases a <;> cases b <;> cases c <;> rfl

@[simp]
theorem merge_self (a : Nullness) : a.merge a = a := by
  cases a <;> rfl

end Nullness

end Dataflow
