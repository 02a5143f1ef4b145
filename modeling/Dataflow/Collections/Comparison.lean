/-!
# Comparing by keys

A record is ordered by its fields, one after the other. `compareOn` compares one
field, `compareLex` falls back on the next. The order is linear as soon as the
fields' orders are, and it tells records apart as soon as the fields do.
-/

namespace Dataflow

variable {α β : Type}

theorem compareLex_eq_iff {c d : α → α → Ordering} {a b : α} :
    compareLex c d a b = .eq ↔ c a b = .eq ∧ d a b = .eq := by
  simp only [compareLex]
  cases c a b <;> simp

theorem compareOn_eq_iff [Ord β] [Std.LawfulEqOrd β] {f : α → β} {a b : α} :
    compareOn f a b = .eq ↔ f a = f b := by
  simp [compareOn]

theorem then_eq_iff {o p : Ordering} : o.then p = .eq ↔ o = .eq ∧ p = .eq := by
  cases o <;> simp

/-- An order in which only equal values compare as equal, from its two halves. -/
theorem lawfulEqOrd_of [Ord α] [Std.TransOrd α] (h : ∀ a b : α, compare a b = .eq → a = b) :
    Std.LawfulEqOrd α where
  eq_of_compare {a b} := h a b

/-- Pairs compare by their first components, then by their second. -/
instance ordProd [Ord α] [Ord β] : Ord (α × β) := ⟨compareLex (compareOn Prod.fst) (compareOn Prod.snd)⟩

instance transOrdProd [Ord α] [Ord β] [Std.TransOrd α] [Std.TransOrd β] : Std.TransOrd (α × β) :=
  inferInstanceAs (Std.TransCmp (compareLex (compareOn Prod.fst) (compareOn Prod.snd)))

instance lawfulEqOrdProd [Ord α] [Ord β] [Std.TransOrd α] [Std.TransOrd β] [Std.LawfulEqOrd α]
    [Std.LawfulEqOrd β] : Std.LawfulEqOrd (α × β) :=
  lawfulEqOrd_of fun a b h => by
    obtain ⟨h₁, h₂⟩ := compareLex_eq_iff.1 h
    exact Prod.ext (compareOn_eq_iff.1 h₁) (compareOn_eq_iff.1 h₂)

end Dataflow
