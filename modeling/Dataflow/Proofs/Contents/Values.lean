import Dataflow.Proofs.Contents.Operators
import Dataflow.Proofs.Variables.Program

/-!
# What contents allow

For the analysis of literal content a concrete value is a literal or something else. A content
allows a literal if it lists it, and anything if it may be something else.

## What is proved

Merging and widening allow what either content allows, although literals are given up when
there are too many of them. An operator on two contents allows every result on values that
they allow (`binary_allows`): it works on all pairs of literals, so also on the two at hand.
-/

namespace Dataflow

/-- A literal, or another value. -/
inductive Datum (Ω : Type) where
  /-- A literal. -/
  | literal (l : Literal)
  /-- Another value. -/
  | other (value : Ω)

/-- An operator on literals that it can be evaluated on yields the result, and anything on other
values. Calls return anything, and parameters hold anything. -/
def Meaning.ofLiterals (Ω : Type) : Meaning (Datum Ω) where
  literal := fun l v => v = .literal l
  binary := fun _ operator u v w => ∀ l r, u = .literal l → v = .literal r →
    ∀ x, operator.evaluate? l r = some x → w = .literal x
  conversion := fun _ _ _ => True
  creation := fun _ _ _ => True
  array := fun _ _ => True
  call := fun _ _ => True
  parameter := fun _ _ => True

namespace Content

variable {Ω : Type} {a b c : Content} {u v w : Datum Ω}

/-- The value is one of the literals, or the content may be something else. -/
def Allows (c : Content) (v : Datum Ω) : Prop := (∃ l ∈ c.literals, v = .literal l) ∨ c.state = .maybe

theorem any_allows (v : Datum Ω) : any.Allows v := .inr rfl

theorem ofLiteral_allows (l : Literal) : (ofLiteral l).Allows (.literal l : Datum Ω) :=
  .inl ⟨l, FinSet.mem_singleton.2 rfl, rfl⟩

/-! ### Merging and widening -/

/-- Literals are united, or given up. -/
theorem merge_allows (h : a.Allows v ∨ b.Allows v) : (merge a b).Allows v := by
  by_cases hab : a = b
  · rw [← hab, merge_self]
    exact h.elim id fun hb => hab ▸ hb
  · rcases merge_of_ne hab with hany | ⟨hmaybe, -, heq⟩
    · rw [hany]
      exact any_allows v
    · rw [heq]
      rcases h with (⟨l, hl, rfl⟩ | h) | ⟨l, hl, rfl⟩ | h
      · exact .inl ⟨l, FinSet.mem_union.2 (.inl hl), rfl⟩
      · rw [h, NonLiteral.maybe_merge] at hmaybe
        exact absurd rfl hmaybe
      · exact .inl ⟨l, FinSet.mem_union.2 (.inr hl), rfl⟩
      · rw [h, NonLiteral.merge_maybe] at hmaybe
        exact absurd rfl hmaybe

theorem widenValue_allows (h : b.Allows v) : (State.widenValue Domain.contents a b).Allows v := by
  rcases widenValue_eq a b with heq | heq
  · rw [heq]
    exact merge_allows (.inr h)
  · rw [heq]
    exact any_allows v

/-! ### Operators -/

/-- Content that is always a literal allows only those that it lists. -/
theorem exists_of_isLiteral (hc : c.isLiteral = true) (h : c.Allows v) : ∃ l ∈ c.literals, v = .literal l := by
  rcases h with h | h
  · exact h
  · rw [state_of_isLiteral hc] at h
    cases h

/-- The result of an operator on contents allows its results on the values that these allow. -/
theorem binary_allows {op : Operation} {operator : BinaryOperator} (ha : a.Allows u) (hb : b.Allows v)
    (h : binary operator a b = .ok c) (hw : (Meaning.ofLiterals Ω).binary op operator u v w) : c.Allows w := by
  rw [binary_eq] at h
  obtain rfl := Except.ok.inj h
  split
  · rename_i evaluates
    obtain ⟨l, hl, rfl⟩ := exists_of_isLiteral evaluates.left ha
    obtain ⟨r, hr, rfl⟩ := exists_of_isLiteral evaluates.right hb
    obtain ⟨x, hx⟩ := Option.isSome_iff_exists.1 (evaluates.defined l hl r hr)
    exact .inl ⟨x, mem_resultSet.2 ⟨l, hl, r, hr, hx⟩, hw l r rfl rfl x hx⟩
  · exact any_allows w

end Content

end Dataflow
