import Dataflow.Session.Cache

/-!
# Equal keys

Keys of results are compared by kind, graph, configuration and discriminator, and filters in
configurations by their labels. So equal keys need not be the same key, but they behave alike.

## What is proved

Being taken for equal is an equivalence of filters, of configurations and of keys.
-/

namespace Dataflow

/-- Filters are taken for equal if their labels are. -/
theorem CallFilter.beq_iff {a b : CallFilter} : (a == b) = true ↔ a.label = b.label :=
  show (a.label == b.label) = true ↔ _ from beq_iff_eq

instance : EquivBEq CallFilter where
  rfl := CallFilter.beq_iff.2 rfl
  symm h := CallFilter.beq_iff.2 (CallFilter.beq_iff.1 h).symm
  trans h h' := CallFilter.beq_iff.2 ((CallFilter.beq_iff.1 h).trans (CallFilter.beq_iff.1 h'))

instance equivBEq_option {α : Type} [BEq α] [EquivBEq α] : EquivBEq (Option α) where
  rfl {a} := by cases a <;> simp
  symm {a b} h := by
    cases a <;> cases b <;> simp_all [BEq.comm]
  trans {a b c} h h' := by
    cases a <;> cases b <;> cases c <;> simp_all
    exact BEq.trans h h'

/-- Configurations are taken for equal if their parts are. -/
theorem Config.beq_iff {a b : Config} : (a == b) = true ↔
    a.calls = b.calls ∧ a.pointsToUse = b.pointsToUse ∧ a.usesCopies = b.usesCopies ∧ a.pessimistic = b.pessimistic ∧
      a.visitsBeforeWidening = b.visitsBeforeWidening ∧ (a.filter == b.filter) = true := by
  obtain ⟨_, _, _, _, _, _⟩ := a
  obtain ⟨_, _, _, _, _, _⟩ := b
  simp only [BEq.beq, instBEqConfig.beq, Bool.and_eq_true, decide_eq_true_eq]

instance : EquivBEq Config where
  rfl := Config.beq_iff.2 ⟨rfl, rfl, rfl, rfl, rfl, BEq.rfl⟩
  symm h := by
    obtain ⟨h₁, h₂, h₃, h₄, h₅, h₆⟩ := Config.beq_iff.1 h
    exact Config.beq_iff.2 ⟨h₁.symm, h₂.symm, h₃.symm, h₄.symm, h₅.symm, BEq.symm h₆⟩
  trans h h' := by
    obtain ⟨h₁, h₂, h₃, h₄, h₅, h₆⟩ := Config.beq_iff.1 h
    obtain ⟨k₁, k₂, k₃, k₄, k₅, k₆⟩ := Config.beq_iff.1 h'
    exact Config.beq_iff.2 ⟨h₁.trans k₁, h₂.trans k₂, h₃.trans k₃, h₄.trans k₄, h₅.trans k₅, BEq.trans h₆ k₆⟩

/-- Keys are taken for equal if their parts are. -/
theorem CacheKey.beq_iff {δ : Type} [BEq δ] {a b : CacheKey δ} : (a == b) = true ↔
    a.kind = b.kind ∧ a.graph = b.graph ∧ (a.config == b.config) = true ∧ (a.discriminator == b.discriminator) = true := by
  obtain ⟨_, _, _, _⟩ := a
  obtain ⟨_, _, _, _⟩ := b
  simp only [BEq.beq, instBEqCacheKey.beq, Bool.and_eq_true, decide_eq_true_eq]

instance {δ : Type} [BEq δ] [EquivBEq δ] : EquivBEq (CacheKey δ) where
  rfl := CacheKey.beq_iff.2 ⟨rfl, rfl, BEq.rfl, BEq.rfl⟩
  symm h := by
    obtain ⟨kind, graph, config, discriminator⟩ := CacheKey.beq_iff.1 h
    exact CacheKey.beq_iff.2 ⟨kind.symm, graph.symm, BEq.symm config, BEq.symm discriminator⟩
  trans h h' := by
    obtain ⟨kind, graph, config, discriminator⟩ := CacheKey.beq_iff.1 h
    obtain ⟨kind', graph', config', discriminator'⟩ := CacheKey.beq_iff.1 h'
    exact CacheKey.beq_iff.2
      ⟨kind.trans kind', graph.trans graph', BEq.trans config config', BEq.trans discriminator discriminator'⟩

end Dataflow
