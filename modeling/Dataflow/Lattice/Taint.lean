import Dataflow.Lattice.Basic

/-!
# Taint

Whether data may come from an untrusted source: a chain of three values, of which
the greater one wins.
-/

namespace Dataflow

/-- Whether data may come from an untrusted source. -/
inductive Taint where
  /-- It does not. -/
  | notTainted
  /-- It does. -/
  | tainted
  /-- Nobody knows. -/
  | unknown
  deriving DecidableEq, Repr

namespace Taint

/-- The place of the value in the chain. -/
def rank : Taint → Nat
  | notTainted => 0
  | tainted => 1
  | unknown => 2

/-- The greater of two values. -/
def merge (a b : Taint) : Taint := if a.rank < b.rank then b else a

/-- The least value. -/
def bottom : Taint := notTainted

/-- The greatest value. -/
def top : Taint := unknown

/-- Whether the data is known to come from an untrusted source. -/
def isTainted : Taint → Bool
  | tainted => true
  | notTainted | unknown => false

/-- The name of the value. -/
def text : Taint → String
  | notTainted => "NotTainted"
  | tainted => "Tainted"
  | unknown => "Unknown"

theorem merge_comm (a b : Taint) : a.merge b = b.merge a := by
  cases a <;> cases b <;> rfl

theorem merge_assoc (a b c : Taint) : (a.merge b).merge c = a.merge (b.merge c) := by
  cases a <;> cases b <;> cases c <;> rfl

@[simp]
theorem merge_self (a : Taint) : a.merge a = a := by
  cases a <;> rfl

end Taint

end Dataflow
