import Dataflow.Proofs.Variables.Program
import Dataflow.Analysis.Solver
import Dataflow.Proofs.Visit.Ensures

/-!
# What an analysis says about runs

A `Reading` turns the states and values of an analysis into statements about stores and
concrete values. It is sound if every hook of the analysis keeps these statements true; the
walk over operation trees, the solver and the runs of a body are then the same for all
analyses.

## The relations

* `Reading.Sound`: what each hook owes, and what merging and widening owe.
* `Coherent`: the resolver names variables as the body does.
* `After`: what is known once some operations have been visited. It speaks of all stores that
  the state before fits, of every evaluation of those operations that starts in one of them,
  and of everything that is evaluated on the way. Visits in a row add up
  (`After.append`), and an operation is added to its operands by what its hook owes
  (`After.node`, and `After.value` if it has no effect).
-/

namespace Dataflow

variable {V C : Type}

/-- How the states and values of an analysis are read as statements. -/
structure Reading (V C : Type) where
  /-- What is known of the states, whatever the run. -/
  good : State V → Prop
  /-- The store is one that the state allows. -/
  fits : State V → Store C → Prop
  /-- The concrete value is one that the abstract value allows, in the state and the store of the
  moment. -/
  describes : State V → Store C → V → C → Prop
  /-- What is known of evaluations from elsewhere. -/
  allowed : Event C → Prop

namespace Reading

/-- The value that is noted for an operation describes what it was evaluated to. -/
def Explains (R : Reading V C) (values : FinMap OperationId V) (ev : Event C) : Prop :=
  ∀ v, ev.result = some v → ∃ a s, values.find? ev.operation.id = some a ∧ R.describes s ev.store a v

end Reading

/-! ### Notes -/

/-- The notes agree on names, values and states; origins, hits and the like may differ. -/
structure Machine.SameNotes (m m' : Machine V) : Prop where
  /-- The names of storage. -/
  resolver : m'.notes.resolver = m.notes.resolver
  /-- The values of operations. -/
  values : m'.notes.values = m.notes.values
  /-- The entities of references. -/
  entities : m'.notes.entities = m.notes.entities
  /-- The states before operations. -/
  before : m'.notes.before = m.notes.before

theorem Machine.SameNotes.refl (m : Machine V) : m.SameNotes m := ⟨rfl, rfl, rfl, rfl⟩

theorem Machine.SameNotes.trans {m m' m'' : Machine V} (h : m.SameNotes m') (h' : m'.SameNotes m'') :
    m.SameNotes m'' :=
  ⟨h'.resolver.trans h.resolver, h'.values.trans h.values, h'.entities.trans h.entities,
    h'.before.trans h.before⟩

/-- The names that the resolver has given to variables are theirs. -/
structure Coherent (ctx : Context V) (m : Machine V) : Prop where
  /-- The names belong to the body. -/
  method : m.notes.resolver.method = ctx.owner
  /-- A remembered answer for a variable is its name. -/
  answers : ∀ op ∈ Operation.subtrees ctx.graph.operations, ∀ x, op.symbol? = some x → ∀ a,
    m.notes.resolver.answers.lookup ⟨op.id, none, []⟩ = some a → a = some (.localVar x ctx.owner)

theorem Coherent.congr {ctx : Context V} {m m' : Machine V} (h : Coherent ctx m)
    (hr : m'.notes.resolver = m.notes.resolver) : Coherent ctx m' := by
  constructor
  · rw [hr]
    exact h.method
  · rw [hr]
    exact h.answers

/-! ### What the hooks owe -/

namespace Reading

/-- Every hook of an analysis keeps the statements true, in the bodies of a fragment. -/
structure Sound [DecidableEq V] (R : Reading V C) (F : Fragment) (M : Meaning C) (A : Analysis V)
    (ctx : Context V) (usual : Call V → Visit V V) : Prop where
  /-- Merging keeps what is known of states. -/
  good_merge : ∀ s t, R.good s → R.good t → R.good (State.merge A.domain s t)
  /-- Widening does. -/
  good_widen : ∀ s t, R.good s → R.good t → R.good (State.widen A.domain s t)
  /-- A merge allows what either state allows. -/
  fits_merge : ∀ s t σ, R.good s → R.good t → R.fits s σ ∨ R.fits t σ → R.fits (State.merge A.domain s t) σ
  /-- A state that is widened by another one allows what that allows. -/
  fits_widen : ∀ s t σ, R.good s → R.good t → R.fits t σ → R.fits (State.widen A.domain s t) σ
  /-- The initial state allows every store that the body starts in. -/
  initial : ∀ s, A.initialState ctx = .ok s → R.good s ∧ ∀ σ, Starts M ctx.graph σ → R.fits s σ
  /-- Constants. -/
  literal : ∀ i l s σ v, R.good s → R.fits s σ → M.literal l v →
    R.describes s σ (A.literal (.literal i l) l) v
  /-- Variables. -/
  reference : ∀ op x m, op.symbol? = some x → R.good m.state →
    Visit.Ensures (A.reference ctx op (some (.localVar x ctx.owner))) m fun a m' =>
      m'.state = m.state ∧ m.SameNotes m' ∧
        ∀ σ v, R.fits m.state σ → σ x = some v → R.describes m.state σ a v
  /-- Assignments to variables. -/
  assign : ∀ i target value x m a, target.symbol? = some x → R.good m.state →
    Visit.Ensures (A.assign ctx (.assignment i target value) (some (.localVar x ctx.owner)) a) m fun b m' =>
      R.good m'.state ∧ m.SameNotes m' ∧
        ∀ σ v, R.fits m.state σ → R.describes m.state σ a v →
          R.allowed ⟨.assignment i target value, some v, σ.set x (some v)⟩ →
            R.fits m'.state (σ.set x (some v)) ∧ R.describes m'.state (σ.set x (some v)) b v
  /-- Binary operators. -/
  binary : ∀ i operator left right m a b, R.good m.state →
    Visit.Ensures (A.binary ctx (.binary i operator left right) operator a b) m fun c m' =>
      m'.state = m.state ∧ m.SameNotes m' ∧
        ∀ σ u v w, R.fits m.state σ → (∃ s τ, R.describes s τ a u) → (∃ s τ, R.describes s τ b v) →
          M.binary (.binary i operator left right) operator u v w → R.describes m.state σ c w
  /-- Conversions, if the bodies have any. -/
  convert : F.conversions = true → ∀ i operand m a, R.good m.state →
    Visit.Ensures (A.convert (.conversion i operand) a) m fun b m' =>
      m'.state = m.state ∧ m.SameNotes m' ∧
        ∀ σ v w, R.fits m.state σ → R.describes m.state σ a v → M.conversion (.conversion i operand) v w →
          R.describes m.state σ b w
  /-- New objects, if the bodies make any. -/
  create : F.objects = true → ∀ i arguments m as, R.good m.state →
    Visit.Ensures (A.create ctx (.objectCreation i arguments) as) m fun b m' =>
      m'.state = m.state ∧ m.SameNotes m' ∧
        ∀ σ vs w, R.fits m.state σ → List.Forall₂ (fun a v => ∃ s τ, R.describes s τ a v) as vs →
          M.creation (.objectCreation i arguments) vs w → R.describes m.state σ b w
  /-- New arrays, if the bodies make any. -/
  createArray : F.arrays = true → ∀ i dimensions m, R.good m.state →
    Visit.Ensures (A.createArray ctx (.arrayCreation i dimensions)) m fun b m' =>
      m'.state = m.state ∧ m.SameNotes m' ∧
        ∀ σ w, R.fits m.state σ → M.array (.arrayCreation i dimensions) w → R.describes m.state σ b w
  /-- Calls, if the bodies make any. Some may get variables by reference. -/
  invoke : F.calls = true → ∀ (call : Call V) xs m, R.good m.state → (F.references = false → xs = []) →
    Analysis.passedStorage call = xs.map (Entity.localVar · ctx.owner) →
      Visit.Ensures (A.invoke ctx usual call) m fun b m' =>
        R.good m'.state ∧ m.SameNotes m' ∧
          ∀ σ σ' w, R.fits m.state σ → Store.Overwritten xs σ σ' → M.call call.method w →
            R.fits m'.state σ' ∧ R.describes m'.state σ' b w
  /-- The end of a variable's scope. -/
  forget : ∀ x s s', R.good s → A.forget (.localVar x ctx.owner) s = .ok s' →
    R.good s' ∧ ∀ σ, R.fits s σ → R.fits s' (σ.set x none)

end Reading

/-! ### What is known after visits -/

/-- Some operations were visited, those among them that take part in an evaluation are listed
besides. `Known` is what is known of the results of such an evaluation. -/
structure After (R : Reading V C) (M : Meaning C) (ctx : Context V) (ops evaluated : List Operation)
    (m : Machine V) (Known : State V → Store C → List (Option C) → Prop) (m' : Machine V) : Prop where
  /-- Variables have their names. -/
  coherent : Coherent ctx m'
  /-- The state is good. -/
  good : R.good m'.state
  /-- What is evaluated was visited. -/
  visited : ∀ op ∈ evaluated, op ∈ ops
  /-- No state before an operation was noted. -/
  before : m'.notes.before = m.notes.before
  /-- Values were noted for these operations only. -/
  values : ∀ id, id ∉ Operation.idsIn ops → m'.notes.values.find? id = m.notes.values.find? id
  /-- The state fits the store that an evaluation leaves. -/
  sound : ∀ σ, R.fits m.state σ → (∀ ev, Emits M evaluated σ ev → R.allowed ev) →
    ∀ rs σ', EvalAll M evaluated σ rs σ' → R.fits m'.state σ' ∧ Known m'.state σ' rs
  /-- The noted values describe what is evaluated on the way. -/
  events : ∀ σ, R.fits m.state σ → (∀ ev, Emits M evaluated σ ev → R.allowed ev) →
    ∀ ev, Emits M evaluated σ ev → R.Explains m'.notes.values ev

/-- An operation was visited, with an abstract value. -/
abbrev Visited (R : Reading V C) (M : Meaning C) (ctx : Context V) (op : Operation) (m : Machine V) (a : V)
    (m' : Machine V) : Prop :=
  After R M ctx [op] [op] m (fun s σ rs => ∃ r, rs = [r] ∧ ∀ v, r = some v → R.describes s σ a v) m'

namespace After

variable {R : Reading V C} {M : Meaning C} {ctx : Context V} {m m₁ m₂ : Machine V}
variable {Known Known₁ Known₂ : State V → Store C → List (Option C) → Prop}

theorem nil (coherent : Coherent ctx m) (good : R.good m.state) :
    After R M ctx [] [] m (fun _ _ rs => rs = []) m := by
  refine ⟨coherent, good, fun _ h => h, rfl, fun _ _ => rfl, fun σ hσ _ rs σ' h => ?_, fun σ _ _ ev h => ?_⟩
  · obtain ⟨rfl, rfl⟩ := evalAll_nil.1 h
    exact ⟨hσ, rfl⟩
  · exact absurd h not_emits_nil

theorem mono {ops evaluated : List Operation} (h : After R M ctx ops evaluated m Known₁ m₁)
    (hK : ∀ s σ rs, Known₁ s σ rs → Known₂ s σ rs) : After R M ctx ops evaluated m Known₂ m₁ := by
  refine ⟨h.coherent, h.good, h.visited, h.before, h.values, fun σ hσ ha rs σ' he => ?_, h.events⟩
  obtain ⟨hfits, hknown⟩ := h.sound σ hσ ha rs σ' he
  exact ⟨hfits, hK _ _ _ hknown⟩

/-- Whatever is evaluated on the way was visited. -/
theorem mem_of_emits {ops evaluated : List Operation} (h : After R M ctx ops evaluated m Known m₁) {σ : Store C}
    {ev : Event C} (he : Emits M evaluated σ ev) : ev.operation ∈ Operation.subtrees ops := by
  obtain ⟨op, hop, hev⟩ := List.mem_flatMap.1 (mem_subtrees_of_emits he)
  exact Operation.subtree_subset_of_mem (h.visited op hop) _ hev

/-- What is explained stays so as long as only other operations are visited. -/
theorem explains_of_disjoint {ops ops' evaluated : List Operation} (h : After R M ctx ops evaluated m Known m₁)
    {ev : Event C} (hev : ev.operation ∈ Operation.subtrees ops')
    (disjoint : ∀ id ∈ Operation.idsIn ops', id ∉ Operation.idsIn ops) (he : R.Explains m.notes.values ev) :
    R.Explains m₁.notes.values ev := by
  intro v hv
  obtain ⟨a, s, ha, hd⟩ := he v hv
  exact ⟨a, s, (h.values _ (disjoint _ (Operation.id_mem_idsIn hev))).trans ha, hd⟩

/-- Visits in a row. -/
theorem append {ops₁ ops₂ evaluated₁ evaluated₂ : List Operation}
    (first : After R M ctx ops₁ evaluated₁ m Known₁ m₁) (second : After R M ctx ops₂ evaluated₂ m₁ Known₂ m₂)
    (nodup : (Operation.idsIn (ops₁ ++ ops₂)).Nodup) :
    After R M ctx (ops₁ ++ ops₂) (evaluated₁ ++ evaluated₂) m
      (fun s σ rs => ∃ rs₁ rs₂, rs = rs₁ ++ rs₂ ∧ (∃ s₁ σ₁, Known₁ s₁ σ₁ rs₁) ∧ Known₂ s σ rs₂) m₂ := by
  rw [Operation.idsIn_append] at nodup
  have disjoint : ∀ id ∈ Operation.idsIn ops₁, id ∉ Operation.idsIn ops₂ :=
    fun id h₁ h₂ => (List.nodup_append.1 nodup).2.2 id h₁ id h₂ rfl
  refine ⟨second.coherent, second.good, fun op hop => ?_, second.before.trans first.before, fun id hid => ?_,
    fun σ hσ ha rs σ' he => ?_, fun σ hσ ha ev he => ?_⟩
  · rcases List.mem_append.1 hop with hop | hop
    · exact List.mem_append_left _ (first.visited op hop)
    · exact List.mem_append_right _ (second.visited op hop)
  · rw [Operation.idsIn_append, List.mem_append, not_or] at hid
    rw [second.values id hid.2, first.values id hid.1]
  · obtain ⟨rs₁, rs₂, σ₁, rfl, he₁, he₂⟩ := evalAll_append.1 he
    obtain ⟨hfits₁, hknown₁⟩ :=
      first.sound σ hσ (fun ev h => ha ev (emits_append.2 (.inl h))) rs₁ σ₁ he₁
    obtain ⟨hfits₂, hknown₂⟩ :=
      second.sound σ₁ hfits₁ (fun ev h => ha ev (emits_append.2 (.inr ⟨rs₁, σ₁, he₁, h⟩))) rs₂ σ' he₂
    exact ⟨hfits₂, rs₁, rs₂, rfl, ⟨_, _, hknown₁⟩, hknown₂⟩
  · rcases emits_append.1 he with he | ⟨rs₁, σ₁, he₁, he⟩
    · have hexp := first.events σ hσ (fun ev h => ha ev (emits_append.2 (.inl h))) ev he
      exact second.explains_of_disjoint (first.mem_of_emits he) disjoint hexp
    · obtain ⟨hfits₁, -⟩ := first.sound σ hσ (fun ev h => ha ev (emits_append.2 (.inl h))) rs₁ σ₁ he₁
      exact second.events σ₁ hfits₁ (fun ev h => ha ev (emits_append.2 (.inr ⟨rs₁, σ₁, he₁, h⟩))) ev he

/-- An operation that is not evaluated, but visited without an effect. -/
theorem unread {op : Operation} {a : V} (h : Visited R M ctx op m a m₁) (hs : m₁.state = m.state) :
    After R M ctx [op] [] m (fun _ _ rs => rs = []) m₁ := by
  refine ⟨h.coherent, h.good, fun _ hop => absurd hop List.not_mem_nil, h.before, h.values,
    fun σ hσ _ rs σ' he => ?_, fun σ _ _ ev he => ?_⟩
  · obtain ⟨rfl, rfl⟩ := evalAll_nil.1 he
    exact ⟨hs ▸ hσ, rfl⟩
  · exact absurd he not_emits_nil

/-- An operation after its operands: `step` is what its hook owes, from the machine `m₁` to the
machine `m₂`, before the value is noted. -/
theorem node {op : Operation} {a : V} (nodup : (op.subtree.map (·.id)).Nodup)
    (operands : After R M ctx op.operands op.evaluated m Known m₁) (coherent : Coherent ctx m₂)
    (good : R.good m₂.state) (before : m₂.notes.before = m₁.notes.before)
    (values : m₂.notes.values = m₁.notes.values)
    (step : ∀ σ rs r σ', R.fits m₁.state σ → Known m₁.state σ rs → Step M op rs σ r σ' →
      R.allowed ⟨op, r, σ'⟩ → R.fits m₂.state σ' ∧ ∀ v, r = some v → R.describes m₂.state σ' a v) :
    Visited R M ctx op m a
      { m₂ with notes := { m₂.notes with values := m₂.notes.values.insert op.id a } } := by
  have fresh := Operation.id_not_mem_operands nodup
  -- The operation itself, evaluated to the end.
  have whole : ∀ σ, R.fits m.state σ → (∀ ev, Emits M [op] σ ev → R.allowed ev) → ∀ r σ', Eval M op σ r σ' →
      R.fits m₂.state σ' ∧ ∀ v, r = some v → R.describes m₂.state σ' a v := by
    intro σ hσ ha r σ' he
    obtain ⟨rs, σ₁, hall, hstep⟩ := eval_iff.1 he
    obtain ⟨hfits, hknown⟩ := operands.sound σ hσ (fun ev h => ha ev (.operand h)) rs σ₁ hall
    exact step σ₁ rs r σ' hfits hknown hstep (ha _ (.head he))
  refine ⟨coherent.congr rfl, good, fun _ h => h, before.trans operands.before, fun id hid => ?_,
    fun σ hσ ha rs σ' he => ?_, fun σ hσ ha ev he => ?_⟩
  · rw [Operation.idsIn_singleton, Operation.map_id_subtree, List.mem_append, not_or, List.mem_singleton] at hid
    show (m₂.notes.values.insert op.id a).find? id = _
    rw [FinMap.find?_insert_ne _ _ hid.2, values, operands.values id hid.1]
  · obtain ⟨r, rfl, hop⟩ := evalAll_singleton.1 he
    obtain ⟨hfits, hdesc⟩ := whole σ hσ ha r σ' hop
    exact ⟨hfits, r, rfl, hdesc⟩
  · rcases emits_cons.1 he with ⟨r, σ', hop, rfl⟩ | hoperand | ⟨r, σ₁, -, hnil⟩
    · exact fun v hv => ⟨a, m₂.state, FinMap.find?_insert_self _ _ _, (whole σ hσ ha r σ' hop).2 v hv⟩
    · intro v hv
      obtain ⟨b, s, hb, hd⟩ := operands.events σ hσ (fun ev h => ha ev (.operand h)) ev hoperand v hv
      refine ⟨b, s, ?_, hd⟩
      show (m₂.notes.values.insert op.id a).find? _ = _
      have hmem := operands.mem_of_emits hoperand
      rw [FinMap.find?_insert_ne _ _ (ne_of_mem_of_not_mem (Operation.id_mem_idsIn hmem) fresh), values, hb]
    · exact absurd hnil not_emits_nil

/-- An operation that has no effect after its operands: its hook leaves the state as it is, and its
evaluation the store. -/
theorem value {op : Operation} {a : V} (nodup : (op.subtree.map (·.id)).Nodup)
    (operands : After R M ctx op.operands op.evaluated m Known m₁) (state : m₂.state = m₁.state)
    (notes : m₁.SameNotes m₂)
    (step : ∀ σ rs r σ', R.fits m₁.state σ → Known m₁.state σ rs → Step M op rs σ r σ' →
      σ' = σ ∧ ∀ v, r = some v → R.describes m₁.state σ a v) :
    Visited R M ctx op m a
      { m₂ with notes := { m₂.notes with values := m₂.notes.values.insert op.id a } } := by
  refine node nodup operands (operands.coherent.congr notes.resolver) (state ▸ operands.good) notes.before
    notes.values fun σ rs r σ' hfits hknown hstep _ => ?_
  obtain ⟨rfl, hdesc⟩ := step σ rs r σ' hfits hknown hstep
  rw [state]
  exact ⟨hfits, hdesc⟩

end After

end Dataflow
