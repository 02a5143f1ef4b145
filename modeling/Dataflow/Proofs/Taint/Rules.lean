import Dataflow.Taint.Rules

/-!
# What the rules of a sink add up to

Of the rules for one sink only the union of their positions is kept, and no positions at all mean every
argument. So a rule for every argument is lost beside one that lists positions.

## The notions

* `TaintConfig.IsSensitive`: some rule makes an argument sensitive.
* `TaintConfig.IsOverruled`: rules for the same sink list positions, and all of them others.

## What is proved

An argument of a method of a known type is sensitive exactly if a rule makes it so and it is not overruled
(`TaintRules.isSinkArgument_iff`).
-/

namespace Dataflow

/-- The sink that a rule is about. -/
def SinkRule.name (r : SinkRule) : MemberName := (r.typeName, r.method)

namespace TaintConfig

/-- The rules about a sink. -/
def sinkRules (config : TaintConfig) (name : MemberName) : List SinkRule := config.sinks.filter (·.name = name)

/-- Some rule about the sink makes the argument at a position sensitive: it lists the position, or none at all. -/
def IsSensitive (config : TaintConfig) (name : MemberName) (k : UInt32) : Prop :=
  ∃ r ∈ config.sinkRules name, r.parameters = [] ∨ k ∈ r.parameters

/-- There are rules about the sink that list positions, and none of them lists this one. -/
def IsOverruled (config : TaintConfig) (name : MemberName) (k : UInt32) : Prop :=
  (∃ r ∈ config.sinkRules name, r.parameters ≠ []) ∧ ∀ r ∈ config.sinkRules name, k ∉ r.parameters

instance (config : TaintConfig) (name : MemberName) (k : UInt32) : Decidable (config.IsSensitive name k) :=
  inferInstanceAs (Decidable (∃ r ∈ config.sinkRules name, r.parameters = [] ∨ k ∈ r.parameters))

theorem mem_sinkRules {config : TaintConfig} {name : MemberName} {r : SinkRule} :
    r ∈ config.sinkRules name ↔ r ∈ config.sinks ∧ r.name = name := by
  simp [sinkRules]

/-- A rule that makes the argument sensitive is overruled unless no rule lists positions or one lists this position. -/
theorem isSensitive_and_not_isOverruled_iff {config : TaintConfig} {name : MemberName} {k : UInt32} :
    config.IsSensitive name k ∧ ¬config.IsOverruled name k ↔
      (∃ r, r ∈ config.sinkRules name) ∧
        ((∀ r ∈ config.sinkRules name, r.parameters = []) ∨ ∃ r ∈ config.sinkRules name, k ∈ r.parameters) := by
  constructor
  · rintro ⟨⟨r, hr, -⟩, notOverruled⟩
    refine ⟨⟨r, hr⟩, ?_⟩
    by_cases listed : ∃ r ∈ config.sinkRules name, k ∈ r.parameters
    · exact .inr listed
    · exact .inl fun r hr => Classical.byContradiction fun lists =>
        notOverruled ⟨⟨r, hr, lists⟩, fun r hr hk => listed ⟨r, hr, hk⟩⟩
  · rintro ⟨⟨r, hr⟩, empty | ⟨r', hr', listed⟩⟩
    · exact ⟨⟨r, hr, .inl (empty r hr)⟩, fun ⟨⟨r, hr, lists⟩, _⟩ => lists (empty r hr)⟩
    · exact ⟨⟨r', hr', .inr listed⟩, fun ⟨_, others⟩ => others r' hr' listed⟩

end TaintConfig

namespace TaintRules

variable {sinks : FinMap MemberName (FinSet UInt32)} {rules : List SinkRule} {name : MemberName} {k : UInt32}

/-! ### Adding up rules -/

theorem find?_addSink (sinks : FinMap MemberName (FinSet UInt32)) (rule : SinkRule) (name : MemberName) :
    (addSink sinks rule).find? name =
      if name = rule.name then some (((sinks.find? name).getD FinSet.empty).union (FinSet.ofList rule.parameters))
      else sinks.find? name := by
  by_cases h : name = rule.name
  · subst h
    exact (FinMap.find?_insert_self _ _ _).trans (if_pos rfl).symm
  · rw [if_neg h]
    exact FinMap.find?_insert_ne _ _ h

/-- A sink is known if there is a rule about it. -/
theorem isSome_addSinks : ((rules.foldl addSink sinks).find? name).isSome = true ↔
    (sinks.find? name).isSome = true ∨ ∃ r ∈ rules, r.name = name := by
  induction rules generalizing sinks with
  | nil => simp
  | cons rule rules ih =>
    rw [List.foldl_cons, ih, find?_addSink]
    by_cases h : name = rule.name
    · simp [h]
    · simp [h, Ne.symm h]

/-- The positions of a sink are those that its rules list. -/
theorem mem_addSinks : k ∈ ((rules.foldl addSink sinks).find? name).getD FinSet.empty ↔
    k ∈ (sinks.find? name).getD FinSet.empty ∨ ∃ r ∈ rules, r.name = name ∧ k ∈ r.parameters := by
  induction rules generalizing sinks with
  | nil => simp
  | cons rule rules ih =>
    rw [List.foldl_cons, ih, find?_addSink]
    by_cases h : name = rule.name
    · simp [h, or_assoc]
    · simp [h, Ne.symm h]

/-! ### The rules of a configuration -/

/-- The rules that are kept are those about known types. -/
theorem mem_sinks_of_known {known : KnownTypes} {config : TaintConfig} {r : SinkRule} :
    (r ∈ config.sinks.filter (fun r => known.contains r.typeName) ∧ r.name = name) ↔
      known.contains name.1 = true ∧ r ∈ config.sinkRules name := by
  rw [List.mem_filter, TaintConfig.mem_sinkRules]
  constructor
  · rintro ⟨⟨mem, isKnown⟩, rfl⟩
    exact ⟨isKnown, mem, rfl⟩
  · rintro ⟨isKnown, mem, rfl⟩
    exact ⟨⟨mem, isKnown⟩, rfl⟩

/-- A sink is found if its type is known and there is a rule about it. -/
theorem isSome_find?_ofConfig {known : KnownTypes} {config : TaintConfig} :
    ((ofConfig known config).sinks.find? name).isSome = true ↔
      known.contains name.1 = true ∧ ∃ r, r ∈ config.sinkRules name := by
  refine isSome_addSinks.trans ?_
  simp only [FinMap.find?_empty, Option.isSome_none, Bool.false_eq_true, false_or, mem_sinks_of_known, exists_and_left]

/-- What a sink that is found is sensitive to. -/
theorem mem_of_find?_ofConfig {known : KnownTypes} {config : TaintConfig} {positions : FinSet UInt32}
    (found : (ofConfig known config).sinks.find? name = some positions) (k : UInt32) :
    k ∈ positions ↔ ∃ r ∈ config.sinkRules name, k ∈ r.parameters := by
  have isKnown : known.contains name.1 = true := (isSome_find?_ofConfig.1 (by rw [found]; rfl)).1
  have members : k ∈ ((ofConfig known config).sinks.find? name).getD FinSet.empty ↔ _ := mem_addSinks
  rw [found, FinMap.find?_empty, Option.getD_some, Option.getD_none] at members
  refine members.trans ?_
  simp only [FinSet.not_mem_empty, false_or, ← and_assoc, mem_sinks_of_known, isKnown, true_and]

/-- A sink that is found is sensitive to all arguments if no rule lists positions. -/
theorem isEmpty_of_find?_ofConfig {known : KnownTypes} {config : TaintConfig} {positions : FinSet UInt32}
    (found : (ofConfig known config).sinks.find? name = some positions) :
    positions.isEmpty = true ↔ ∀ r ∈ config.sinkRules name, r.parameters = [] := by
  have members := mem_of_find?_ofConfig found
  rw [FinSet.isEmpty_iff]
  constructor
  · rintro rfl r hr
    exact List.eq_nil_iff_forall_not_mem.2 fun k hk => FinSet.not_mem_empty k ((members k).2 ⟨r, hr, hk⟩)
  · refine fun empty => FinSet.ext fun k => iff_of_false (fun hk => ?_) (FinSet.not_mem_empty k)
    obtain ⟨r, hr, hk⟩ := (members k).1 hk
    rw [empty r hr] at hk
    cases hk

/-- **The rules of a sink add up to the union of their positions**, so that a rule for every argument counts only as
long as no other rule about the same sink lists positions: an argument of a method is sensitive exactly if the type
that declares the method is known, some rule makes the argument so, and it is not overruled. -/
theorem isSinkArgument_iff (known : KnownTypes) (config : TaintConfig) (m : Symbol) (k : UInt32) :
    (ofConfig known config).isSinkArgument m k = true ↔
      ∃ t, m.containingType = some t ∧ known.contains t = true ∧
        config.IsSensitive (t, m.name) k ∧ ¬config.IsOverruled (t, m.name) k := by
  unfold isSinkArgument nameOf
  cases m.containingType with
  | none => simp
  | some t =>
    simp only [Option.map_some, Option.bind_some, Option.some.injEq, exists_eq_left']
    have sink : ((ofConfig known config).sinks.find? (t, m.name)).isSome = true ↔
        known.contains t = true ∧ ∃ r, r ∈ config.sinkRules (t, m.name) := isSome_find?_ofConfig
    rw [TaintConfig.isSensitive_and_not_isOverruled_iff, ← and_assoc, ← sink]
    cases found : (ofConfig known config).sinks.find? (t, m.name) with
    | none => simp
    | some positions =>
      rw [Option.any_some, Bool.or_eq_true, isEmpty_of_find?_ofConfig found, ← FinSet.mem_iff_contains,
        mem_of_find?_ofConfig found]
      exact (and_iff_right rfl).symm

/-! ### A rule that is overruled -/

namespace Overruled

/-- Every argument of a method is sensitive; a second rule says so of the first one again. -/
def config : TaintConfig := ⟨[], [], [⟨"Db", "execute", []⟩, ⟨"Db", "execute", [0]⟩]⟩

/-- The method. -/
def execute : Symbol := Symbol.method "Db" "execute" none

/-- The types that are known. -/
def known : KnownTypes := KnownTypes.ofList [TypeRef.reference "Db"]

end Overruled

open Overruled in
/-- Beside a rule that lists the first argument the rule for every argument is lost: the second argument of a method
of a known type is not sensitive, although a rule makes it so. -/
theorem not_isSinkArgument_overruled :
    known.contains "Db" = true ∧ config.IsSensitive ("Db", execute.name) 1 ∧
      (ofConfig known config).isSinkArgument execute 1 = false := by
  decide +kernel

end TaintRules

end Dataflow
