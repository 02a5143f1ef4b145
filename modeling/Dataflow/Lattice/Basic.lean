/-!
# The order of a merge

Each kind of abstract value has a merge that forgets whatever its two arguments
disagree on. A value is below another if merging them adds nothing to the other.
-/

namespace Dataflow

/-- How two values compare in the order that a merge induces. -/
def compareByMerge {α : Type} [DecidableEq α] (merge : α → α → α) (a b : α) : Option Ordering :=
  if a = b then some .eq
  else if merge a b = b then some .lt
  else if merge a b = a then some .gt
  else none

/-- The order of pairs by their first components, then by their second. -/
def compareLexicographic {α β : Type} (first : α → α → Option Ordering)
    (second : β → β → Option Ordering) (a b : α × β) : Option Ordering :=
  match first a.1 b.1 with
  | some .eq => second a.2 b.2
  | o => o

/-- Pairs are merged by components. -/
def mergePairs {α β : Type} (first : α → α → α) (second : β → β → β) (a b : α × β) : α × β :=
  (first a.1 b.1, second a.2 b.2)

end Dataflow
