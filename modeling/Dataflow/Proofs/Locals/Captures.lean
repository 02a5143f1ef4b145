import Dataflow.Proofs.Locals.Evaluation

/-!
# What temporaries stand for

The resolver has one binding for a temporary, and a later capture of a location replaces an earlier one. States know nothing
of it. So a reference to the temporary stands for the variable that was captured last in the order of evaluation, on
whatever path, and a store by way of it goes to that variable only.

## The notions

* `Operation.lastCaptured`: the variable that some operations capture last.
* `Traces`: what some operations do to a machine, as far as temporaries and variables go.
* `CapturedStore`: a store by way of a temporary that captures variables only.

## What is proved

The binding of a temporary is what was captured last (`Evaluates.traces`, `Analysis.runBlock_traces`). A store by way of it
gives its value to that variable, and leaves the others as they are (`CapturedStore.visit_gives`,
`CapturedStore.runBlock_given`).
-/

namespace Dataflow

variable {V : Type}

/-! ### Captured variables -/

namespace Operation

/-- The variable whose location an operation captures in a temporary. -/
def captures? (c : CaptureId) : Operation → Option Symbol
  | .capture _ d target true => if d = c then target.symbol? else none
  | _ => none

/-- The variable whose location some operations capture last. -/
def lastCaptured (c : CaptureId) (l : List Operation) : Option Symbol := (l.filterMap (captures? c)).getLast?

theorem lastCaptured_append (c : CaptureId) (l l' : List Operation) :
    lastCaptured c (l ++ l') = (lastCaptured c l').or (lastCaptured c l) := by
  unfold lastCaptured
  rw [List.filterMap_append, List.getLast?_append]

theorem lastCaptured_singleton (c : CaptureId) (op : Operation) : lastCaptured c [op] = op.captures? c := by
  cases h : op.captures? c <;> simp [lastCaptured, h]

end Operation

/-- Whatever captures a location in the temporary captures the one of a variable. -/
def Graph.CapturesVariables (g : Graph) (c : CaptureId) : Prop :=
  ∀ i target, Operation.capture i c target true ∈ Operation.subtrees g.operations → target.symbol?.isSome = true

/-- The entity of a variable in the body. -/
def Context.variable (ctx : Context V) (x : Symbol) : Entity := .localVar x ctx.owner

theorem Context.variable_inj {ctx : Context V} {x y : Symbol} (h : ctx.variable x = ctx.variable y) : x = y :=
  (Entity.localVar.inj h).1

/-! ### Steps -/

section Steps

variable {A : Analysis V} {ctx : Context V} {usual : Call V → Visit V V} {l l' : List Operation} {m m' m'' : Machine V}
variable {op : Operation} {c : CaptureId}

/-- What some operations do to a machine: it stays tidy, the temporary stands for what was captured last, and no more
happens to variables than has to. -/
structure Traces (ctx : Context V) (c : CaptureId) (l : List Operation) (m m' : Machine V) : Prop where
  /-- The machine stays tidy. -/
  tidy : Tidy ctx m'
  /-- What was captured last. -/
  binds : m'.notes.resolver.bindings.find? c =
    ((Operation.lastCaptured c l).map ctx.variable).or (m.notes.resolver.bindings.find? c)
  /-- What the operations leave as it is. -/
  spares : ∀ x aliases, ctx.graph.Covers x aliases → Sparing ctx x aliases l m m'

theorem Traces.refl (h : Tidy ctx m) : Traces ctx c [] m m :=
  ⟨h, rfl, fun x aliases covers => .refl (h.distinguishes x aliases covers)⟩

theorem Traces.append (h : Traces ctx c l m m') (h' : Traces ctx c l' m' m'') : Traces ctx c (l ++ l') m m'' where
  tidy := h'.tidy
  binds := by
    rw [h'.binds, h.binds, Operation.lastCaptured_append, Option.map_or, Option.or_assoc]
  spares x aliases covers := (h.spares x aliases covers).append (h'.spares x aliases covers)

namespace Analysis

variable [DecidableEq V] (distinct : ctx.graph.DistinctIds) (names : A.KeepsNames ctx) (husual : IsUsual A ctx usual)
variable (captures : ctx.graph.CapturesVariables c)

include names husual captures in
/-- Only an operation that captures the location of a variable changes what the temporary stands for. -/
theorem steps_binds (hop : op ∈ Operation.subtrees ctx.graph.operations) (tidy : Tidy ctx m)
    (h : Steps A ctx usual op m m') : m'.notes.resolver.bindings.find? c =
      ((op.captures? c).map ctx.variable).or (m.notes.resolver.bindings.find? c) := by
  obtain ⟨seen, v, m₁, told, run, rfl⟩ := h
  have relinks := own_relinks names husual op seen m v m₁ run
  have kept (unlinked : linked? op seen = none) : m₁.notes.resolver.bindings = m.notes.resolver.bindings := by
    rcases (relinks_of_none unlinked).1 relinks with same | ⟨owner, indices, same⟩
    · rw [same]
    · rw [same, Resolver.resolve_bindings]
  by_cases hcapture : ∃ i d target, op = .capture i d target true
  · obtain ⟨i, d, target, rfl⟩ := hcapture
    obtain ⟨s, _, ⟨visited, noted⟩, others, rfl⟩ := List.forall₂_cons_left_iff.1 told
    obtain rfl := List.forall₂_nil_left_iff.1 others
    have htarget : target ∈ Operation.subtrees ctx.graph.operations :=
      Operation.mem_subtrees_of_mem_operands hop (by simp [Operation.operands])
    by_cases hd : d = c
    · subst hd
      obtain ⟨x, hx⟩ := Option.isSome_iff_exists.1 (captures i target hop)
      have entity : s.entity = some (ctx.variable x) :=
        noted.symm.trans (tidy.named target htarget x hx (by rw [visited]; rfl))
      have bound := (relinks_of_some (by rw [linked?, entity]; rfl)).1 relinks
      rw [show m₁.notes.resolver = _ from bound, Operation.captures?, if_pos rfl, hx]
      exact FinMap.find?_insert_self _ _ _
    · rw [Operation.captures?, if_neg hd]
      cases entity : s.entity with
      | none => rw [show m₁.notes.resolver.bindings = _ from kept (by rw [linked?, entity]; rfl)]; rfl
      | some e =>
        have bound := (relinks_of_some (by rw [linked?, entity]; rfl)).1 relinks
        rw [show m₁.notes.resolver = _ from bound]
        exact FinMap.find?_insert_ne _ _ (Ne.symm hd)
  · have uncaptured : op.captures? c = none := by
      unfold Operation.captures?
      split
      · exact absurd ⟨_, _, _, rfl⟩ hcapture
      · rfl
    have unlinked : linked? op seen = none := by
      unfold linked?
      split
      · exact absurd ⟨_, _, _, rfl⟩ hcapture
      · rfl
    rw [show m₁.notes.resolver.bindings = _ from kept unlinked, uncaptured]
    rfl

include names in
omit [DecidableEq V] in
/-- A reference to the temporary stands for what the temporary stands for. -/
theorem steps_captureRef {i : OperationInfo} (tidy : Tidy ctx m) (h : Steps A ctx usual (.captureRef i c) m m') :
    m'.notes.entities.find? i.id =
      some ((m.notes.resolver.bindings.find? c).getD (.temporary c ctx.owner i.type)) := by
  obtain ⟨seen, v, m₁, -, run, rfl⟩ := h
  have spec : Visit.Ensures (Visit.resolve (.captureRef i c) none [] >>= A.reference ctx (.captureRef i c)) m fun _ m' =>
      m'.notes.entities.find? i.id =
        some ((m.notes.resolver.bindings.find? c).getD (.temporary c ctx.owner i.type)) := by
    rw [Visit.ensures_bind, Visit.ensures_resolve]
    refine (names.reference _ _ _).mono fun _ m' kept => ?_
    rw [kept.2, ← tidy.method]
    exact FinMap.find?_insert_self _ _ _
  exact spec v m₁ run

variable (preserves : A.PreservesLocals ctx)

include preserves in
omit [DecidableEq V] in
/-- A store gives its value to the storage that its target stands for, and leaves other storage of the method as it is. -/
theorem steps_assignment {i : OperationInfo} {target value : Operation} {e : Entity}
    (h : Steps A ctx usual (.assignment i target value) m m') (entity : m.notes.entities.find? target.id = some e)
    (isLocal : e.isMethodLocal = true) : ∃ v, m'.notes.values.find? i.id = some v ∧ m'.state.find? e = some v ∧
      ∀ a, a.isMethodLocal = true → a ≠ e → m'.state.find? a = m.state.find? a := by
  obtain ⟨seen, v, m₁, told, run, rfl⟩ := h
  obtain ⟨t, _, ⟨-, noted⟩, others, rfl⟩ := List.forall₂_cons_left_iff.1 told
  obtain ⟨s, _, -, more, rfl⟩ := List.forall₂_cons_left_iff.1 others
  obtain rfl := List.forall₂_nil_left_iff.1 more
  have assigned : ExceptT.run (A.assign ctx (.assignment i target value) (some e) s.value) m = (.ok v, m₁) := by
    rw [← noted.symm.trans entity]
    exact run
  obtain ⟨rfl, stored⟩ := preserves.stored _ _ _ m isLocal v m₁ assigned
  refine ⟨_, FinMap.find?_insert_self _ _ _, stored, fun a ha hae => ?_⟩
  exact (preserves.assign _ _ _ m _ m₁ assigned).1 a ⟨ha, fun same => hae (Option.some.inj same).symm⟩

include distinct names husual preserves

/-- States before operations are noted for operations that stand for themselves only. -/
theorem steps_before (hop : op ∈ Operation.subtrees ctx.graph.operations) (tidy : Tidy ctx m)
    (h : Steps A ctx usual op m m') : m'.notes.before = m.notes.before := by
  have covers := ctx.graph.covers_temporaries ctx.owner
  obtain ⟨seen, v, m₁, told, run, rfl⟩ := h
  have distinguishes := tidy.distinguishes _ _ covers
  exact (own_ownSparing distinct covers names preserves husual hop (tells_of_told hop told distinguishes) distinguishes
    v m₁ run).before

end Analysis

namespace Evaluates

variable [DecidableEq V] (distinct : ctx.graph.DistinctIds) (names : A.KeepsNames ctx)
variable (husual : Analysis.IsUsual A ctx usual) (preserves : A.PreservesLocals ctx)
include distinct names husual preserves

/-- The temporary stands for the variable that was captured last. -/
theorem traces (captures : ctx.graph.CapturesVariables c) (h : Evaluates A ctx usual l m m')
    (hl : ∀ o ∈ l, o ∈ Operation.subtrees ctx.graph.operations) (tidy : Tidy ctx m) : Traces ctx c l m m' := by
  induction h with
  | nil => exact .refl tidy
  | @cons op l m m₁ m₂ step _ ih =>
    have hop := hl _ List.mem_cons_self
    have tidy' := Analysis.steps_tidy distinct names husual preserves hop tidy step
    have first : Traces ctx c [op] m m₁ := by
      refine ⟨tidy', ?_, fun x aliases covers => Analysis.steps_spares distinct names husual preserves hop tidy step covers⟩
      rw [Operation.lastCaptured_singleton]
      exact Analysis.steps_binds names husual captures hop tidy step
    exact first.append (ih (fun o ho => hl o (List.mem_cons_of_mem _ ho)) tidy')

theorem before (h : Evaluates A ctx usual l m m') (hl : ∀ o ∈ l, o ∈ Operation.subtrees ctx.graph.operations)
    (tidy : Tidy ctx m) : m'.notes.before = m.notes.before := by
  induction h with
  | nil => rfl
  | cons step _ ih =>
    have hop := hl _ List.mem_cons_self
    refine (ih (fun o ho => hl o (List.mem_cons_of_mem _ ho)) ?_).trans ?_
    · exact Analysis.steps_tidy distinct names husual preserves hop tidy step
    · exact Analysis.steps_before distinct names husual preserves hop tidy step

end Evaluates

/-! ### Blocks -/

/-- What the visit of a block does to a machine, and to the state that it starts in. -/
structure BlockTraces (ctx : Context V) (c : CaptureId) (b : Block) (s : State V) (m : Machine V) (out : State V)
    (m' : Machine V) : Prop where
  /-- The machine stays tidy. -/
  tidy : Tidy ctx m'
  /-- What was captured last. -/
  binds : m'.notes.resolver.bindings.find? c =
    ((Operation.lastCaptured c (Operation.subtrees b.allOperations)).map ctx.variable).or
      (m.notes.resolver.bindings.find? c)
  /-- Values of operations of other blocks. -/
  values : ∀ id ∉ Operation.idsIn b.allOperations, m'.notes.values.find? id = m.notes.values.find? id
  /-- Entities of operations of other blocks. -/
  entities : ∀ id ∉ Operation.idsIn b.allOperations, m'.notes.entities.find? id = m.notes.entities.find? id
  /-- States before operations of other blocks. -/
  before : ∀ id ∉ Operation.idsIn b.allOperations, m'.notes.before.find? id = m.notes.before.find? id
  /-- Variables that the block does not store into. -/
  spares : ∀ x aliases, ctx.graph.Covers x aliases →
    (∀ op ∈ Operation.subtrees b.allOperations, op.mayStore x aliases = false) → x ∉ b.leavingScope →
      out.find? (ctx.variable x) = s.find? (ctx.variable x)

namespace Analysis

variable [DecidableEq V] (distinct : ctx.graph.DistinctIds) (names : A.KeepsNames ctx) (husual : IsUsual A ctx usual)
variable (captures : ctx.graph.CapturesVariables c) (preserves : A.PreservesLocals ctx)
include distinct names husual captures preserves

/-- Visits of operations of a block, one after the other. -/
theorem visitAll_traces {ops : List Operation} (hops : ∀ o ∈ ops, o ∈ Operation.subtrees ctx.graph.operations)
    (nodup : (Operation.idsIn ops).Nodup) (tidy : Tidy ctx m) : Visit.Ensures (ops.forM fun op => do
      Visit.recordBefore op.id
      let _ ← A.visit ctx usual op) m fun _ m' => Traces ctx c (Operation.subtrees ops) m m' := by
  have named : Visit.Ensures (ops.forM fun op => do
      Visit.recordBefore op.id
      let _ ← A.visit ctx usual op) m fun _ m' => Tidy ctx m' ∧ m'.notes.resolver.bindings.find? c =
        ((Operation.lastCaptured c (Operation.subtrees ops)).map ctx.variable).or
          (m.notes.resolver.bindings.find? c) := by
    induction ops generalizing m with
    | nil =>
      rw [Visit.ensures_forM_nil]
      exact ⟨tidy, rfl⟩
    | cons op ops ih =>
      rw [Operation.nodup_idsIn_cons] at nodup
      have hop := hops op List.mem_cons_self
      simp only [Visit.ensures_forM_cons, Visit.ensures_bind, Visit.ensures_recordBefore, Visit.ensures_pure]
      have tidy₀ : Tidy ctx { m with notes := { m.notes with before := m.notes.before.insert op.id m.state } } :=
        tidy.congr rfl rfl rfl
      refine (visit_evaluates distinct names husual preserves hop nodup.1 tidy₀).mono fun _ m₁ visited => ?_
      have first := visited.1.traces distinct names husual preserves captures (fun o ho => Operation.subtrees_trans hop ho)
        tidy₀
      refine (ih (fun o ho => hops o (List.mem_cons_of_mem _ ho)) nodup.2.1 first.tidy).mono fun _ m₂ others => ?_
      refine ⟨others.1, ?_⟩
      rw [others.2, first.binds, Operation.subtrees_cons, Operation.lastCaptured_append, Option.map_or, Option.or_assoc]
  intro a m' hrun
  obtain ⟨tidy', binds⟩ := named a m' hrun
  exact ⟨tidy', binds, fun x aliases covers =>
    visitAll_spares distinct covers names preserves husual hops (tidy.distinguishes x aliases covers) a m' hrun⟩

/-- The visit of a block. -/
theorem runBlock_traces {b : Block} (hb : b ∈ ctx.graph.blocks) (s : State V) (tidy : Tidy ctx m) :
    Visit.Ensures (A.runBlock ctx usual b s) m fun out m' => BlockTraces ctx c b s m out m' := by
  unfold runBlock
  simp only [Visit.ensures_bind, Visit.ensures_setState]
  refine (visitAll_traces distinct names husual captures preserves (Graph.allOperations_subset hb) (distinct.block hb)
    (m := { m with state := s }) (tidy.congr rfl rfl rfl)).mono fun _ m₁ visited => ?_
  refine (leaveScope_spares preserves b.leavingScope visited.tidy.method).mono fun _ m₂ left => ?_
  obtain ⟨notes, left⟩ := left
  rw [Visit.ensures_state]
  have covers := ctx.graph.covers_temporaries ctx.owner
  have spared := visited.spares _ _ covers
  exact
    { tidy := visited.tidy.congr (by rw [notes]) (by rw [notes]) (by rw [notes])
      binds := by rw [notes]; exact visited.binds
      values := by rw [notes]; exact spared.values
      entities := by rw [notes]; exact spared.entities
      before := by rw [notes]; exact spared.before
      spares := fun x aliases covers spares scope =>
        (left x scope).trans ((visited.spares x aliases covers).holds spares) }

end Analysis

end Steps

/-! ### Stores by way of a temporary -/

/-- A store by way of a temporary that captures variables only. It is part of an operation of a block. -/
structure CapturedStore (g : Graph) where
  /-- The block. -/
  block : Block
  /-- The operations of the block before the one with the store. -/
  before : List Operation
  /-- The operation with the store. -/
  root : Operation
  /-- The operations of the block after that. -/
  after : List Operation
  /-- What is evaluated for it before the store. -/
  first : List Operation
  /-- What the store carries. -/
  info : OperationInfo
  /-- What the reference to the temporary carries. -/
  ref : OperationInfo
  /-- The temporary. -/
  capture : CaptureId
  /-- The operation whose value is stored. -/
  value : Operation
  /-- What is evaluated for the operation after the store. -/
  last : List Operation
  /-- The block is one of the body. -/
  mem : block ∈ g.blocks
  /-- The operation is one of the block. -/
  operations : block.allOperations = before ++ root :: after
  /-- The store is part of the operation. -/
  evaluated : root.subtree = first ++ (Operation.assignment info (.captureRef ref capture) value).subtree ++ last
  /-- The locations that the temporary captures are those of variables. -/
  captures : g.CapturesVariables capture

namespace CapturedStore

variable {A : Analysis V} {ctx : Context V} {usual : Call V → Visit V V} {m m' : Machine V}

/-- The store. -/
def store {g : Graph} (S : CapturedStore g) : Operation := .assignment S.info (.captureRef S.ref S.capture) S.value

/-- What the operation with the store evaluates besides, before the store. -/
def others {g : Graph} (S : CapturedStore g) : List Operation := S.first ++ S.value.subtree

/-- What the target of the store stands for when some operations were evaluated. -/
def target (S : CapturedStore ctx.graph) (l : List Operation) : Entity :=
  ((Operation.lastCaptured S.capture l).map ctx.variable).getD (.temporary S.capture ctx.owner S.ref.type)

theorem subtree_root {g : Graph} (S : CapturedStore g) :
    S.root.subtree = S.first ++ .captureRef S.ref S.capture :: (S.value.subtree ++ S.store :: S.last) := by
  rw [S.evaluated, Operation.subtree_eq]
  simp [Operation.operands, store, Operation.subtree_eq (.captureRef S.ref S.capture)]

theorem root_mem {g : Graph} (S : CapturedStore g) : S.root ∈ Operation.subtrees g.operations := by
  have listed : S.root ∈ S.block.allOperations := S.operations ▸ List.mem_append_right _ List.mem_cons_self
  exact Graph.allOperations_subset S.mem _ listed

/-- The reference to the temporary and the store are told apart from each other and from what is evaluated after them. -/
theorem distinct_ids {g : Graph} (S : CapturedStore g) (nodup : (S.root.subtree.map (·.id)).Nodup) :
    S.ref.id ∉ S.value.subtree.map (·.id) ∧ S.ref.id ≠ S.info.id ∧ S.ref.id ∉ S.last.map (·.id) ∧
      S.info.id ∉ S.last.map (·.id) := by
  rw [subtree_root, List.map_append] at nodup
  have later := (List.nodup_append.1 nodup).2.1
  rw [List.map_cons, List.map_append, List.map_cons, List.nodup_cons, List.nodup_append, List.nodup_cons, List.mem_append,
    List.mem_cons, not_or, not_or] at later
  obtain ⟨⟨refValue, refStore, refLast⟩, -, ⟨storeLast, -⟩, -⟩ := later
  exact ⟨refValue, refStore, refLast, storeLast⟩

theorem isMethodLocal_target (S : CapturedStore ctx.graph) (l : List Operation) : (S.target l).isMethodLocal = true := by
  unfold target
  cases Operation.lastCaptured S.capture l <;> rfl

/-- After the operation with the store nothing is stored into a variable in the block, and its scope does not end. -/
structure Stays {g : Graph} (S : CapturedStore g) (x : Symbol) (aliases : List CaptureId) : Prop where
  /-- Some temporaries are all that may stand for the variable. -/
  covers : g.Covers x aliases
  /-- The rest of the operation does not store into it. -/
  last : ∀ op ∈ S.last, op.mayStore x aliases = false
  /-- The rest of the block does not. -/
  after : ∀ op ∈ Operation.subtrees S.after, op.mayStore x aliases = false
  /-- The variable stays in scope. -/
  scope : x ∉ S.block.leavingScope

/-- The target of the store holds the value, and other variables hold what they did, if nothing else is stored into
them. -/
structure Gives (S : CapturedStore ctx.graph) (e : Entity) (v : V) (stays : Symbol → List CaptureId → Prop)
    (s s' : State V) : Prop where
  /-- The target. -/
  target : ∀ x aliases, stays x aliases → ctx.variable x = e → s'.find? (ctx.variable x) = some v
  /-- Other variables. -/
  others : ∀ x aliases, stays x aliases → (∀ op ∈ S.others, op.mayStore x aliases = false) → ctx.variable x ≠ e →
    s'.find? (ctx.variable x) = s.find? (ctx.variable x)

variable [DecidableEq V] (distinct : ctx.graph.DistinctIds) (names : A.KeepsNames ctx)
variable (husual : Analysis.IsUsual A ctx usual) (preserves : A.PreservesLocals ctx)
include distinct names husual preserves

/-- The visit of the operation with the store. The target stands for the variable that was captured last. -/
theorem visit_gives (S : CapturedStore ctx.graph) (tidy : Tidy ctx m) {l : List Operation}
    (binds : m.notes.resolver.bindings.find? S.capture = (Operation.lastCaptured S.capture l).map ctx.variable) :
    Visit.Ensures (A.visit ctx usual S.root) m fun _ m' => Traces ctx S.capture S.root.subtree m m' ∧
      m'.notes.before = m.notes.before ∧ m'.notes.entities.find? S.ref.id = some (S.target (l ++ S.first)) ∧
      ∃ v, m'.notes.values.find? S.info.id = some v ∧ S.Gives (S.target (l ++ S.first)) v
        (fun x aliases => ctx.graph.Covers x aliases ∧ ∀ op ∈ S.last, op.mayStore x aliases = false) m.state m'.state := by
  have listed : S.root ∈ S.block.allOperations := S.operations ▸ List.mem_append_right _ List.mem_cons_self
  have nodup := Operation.nodup_of_mem listed (distinct.block S.mem)
  refine (Analysis.visit_evaluates distinct names husual preserves S.root_mem nodup tidy).mono fun _ m' visited => ?_
  obtain ⟨evaluates, -⟩ := visited
  have below : ∀ o ∈ S.root.subtree, o ∈ Operation.subtrees ctx.graph.operations := fun o ho =>
    Operation.subtrees_trans S.root_mem ho
  refine ⟨evaluates.traces distinct names husual preserves S.captures below tidy,
    evaluates.before distinct names husual preserves below tidy, ?_⟩
  -- The run up to the reference, up to the store, and after it.
  rw [subtree_root] at evaluates below
  simp only [List.mem_append, List.mem_cons] at below
  obtain ⟨m₁, first, evaluates⟩ := evaluates.split
  obtain _ | ⟨refers, evaluates⟩ := evaluates
  rename_i m₂
  obtain ⟨m₃, valued, evaluates⟩ := evaluates.split
  obtain _ | ⟨stores, last⟩ := evaluates
  rename_i m₄
  have hfirst := first.traces distinct names husual preserves S.captures (fun o ho => below o (.inl ho)) tidy
  have href := below (.captureRef S.ref S.capture) (.inr (.inl rfl))
  have hvalue := fun o ho => below o (.inr (.inr (.inl ho)))
  have hstore := below S.store (.inr (.inr (.inr (.inl rfl))))
  have hlast := fun o ho => below o (.inr (.inr (.inr (.inr ho))))
  have tidy₂ := Analysis.steps_tidy distinct names husual preserves href hfirst.tidy refers
  have tidy₃ := valued.tidy distinct names husual preserves hvalue tidy₂
  have tidy₄ := Analysis.steps_tidy distinct names husual preserves hstore tidy₃ stores
  -- What was noted stays, for the identifiers are distinct.
  obtain ⟨refValue, refStore, refLast, storeLast⟩ := S.distinct_ids nodup
  have entity₂ : m₂.notes.entities.find? S.ref.id = some (S.target (l ++ S.first)) := by
    refine (Analysis.steps_captureRef names hfirst.tidy refers).trans ?_
    rw [hfirst.binds, binds, ← Option.map_or, ← Operation.lastCaptured_append]
    rfl
  have entity₃ : m₃.notes.entities.find? S.ref.id = some (S.target (l ++ S.first)) :=
    (Analysis.told_of_evaluates distinct names husual preserves valued hvalue tidy₂ refValue).2.trans entity₂
  obtain ⟨v, value₄, held, kept⟩ := Analysis.steps_assignment preserves stores entity₃ (S.isMethodLocal_target _)
  have entity₄ : m₄.notes.entities.find? S.ref.id = some (S.target (l ++ S.first)) := by
    have covers := ctx.graph.covers_temporaries ctx.owner
    refine ((Analysis.steps_spares distinct names husual preserves hstore tidy₃ stores covers).entities _ ?_).trans entity₃
    exact fun same => refStore (List.mem_singleton.1 same)
  have later {i : OperationId} (hi : i ∉ S.last.map (·.id)) :=
    Analysis.told_of_evaluates distinct names husual preserves last hlast tidy₄ hi
  refine ⟨(later refLast).2.trans entity₄, v, (later storeLast).1.trans value₄, fun x aliases stays target => ?_,
    fun x aliases stays spares other => ?_⟩
  · refine ((last.spares distinct names husual preserves hlast tidy₄ stays.1).holds stays.2).trans ?_
    rw [← held, ← target]
    rfl
  · obtain ⟨covers, stays⟩ := stays
    calc m'.state.find? (ctx.variable x)
      _ = m₄.state.find? (ctx.variable x) :=
        (last.spares distinct names husual preserves hlast tidy₄ covers).holds stays
      _ = m₃.state.find? (ctx.variable x) := kept _ rfl other
      _ = m₂.state.find? (ctx.variable x) := (valued.spares distinct names husual preserves hvalue tidy₂ covers).holds
        fun op hop => spares op (List.mem_append_right _ hop)
      _ = m₁.state.find? (ctx.variable x) :=
        (Analysis.steps_spares distinct names husual preserves href hfirst.tidy refers covers).holds fun op hop => by
          rw [List.mem_singleton.1 hop]
          rfl
      _ = m.state.find? (ctx.variable x) := (hfirst.spares x aliases covers).holds fun op hop =>
        spares op (List.mem_append_left _ hop)

/-- What is noted about the store, and the state that its block leaves, if some operations were evaluated before the
block. -/
structure Given (S : CapturedStore ctx.graph) (l : List Operation) (out : State V) (n : Notes V) : Prop where
  /-- What the target stands for. -/
  entity : n.entities.find? S.ref.id = some (S.target (l ++ Operation.subtrees S.before ++ S.first))
  /-- What the block leaves. -/
  gives : ∃ s v, n.before.find? S.root.id = some s ∧ n.values.find? S.info.id = some v ∧
    S.Gives (S.target (l ++ Operation.subtrees S.before ++ S.first)) v S.Stays s out

/-- The visit of the block with the store. -/
theorem runBlock_given (S : CapturedStore ctx.graph) (s : State V) (tidy : Tidy ctx m) {l : List Operation}
    (binds : m.notes.resolver.bindings.find? S.capture = (Operation.lastCaptured S.capture l).map ctx.variable) :
    Visit.Ensures (A.runBlock ctx usual S.block s) m fun out m' => S.Given l out m'.notes := by
  have listed := Graph.allOperations_subset S.mem
  have nodup := distinct.block S.mem
  rw [S.operations] at listed nodup
  rw [Operation.idsIn_append] at nodup
  obtain ⟨nodupBefore, nodup, -⟩ := List.nodup_append.1 nodup
  obtain ⟨-, nodupAfter, apart⟩ := Operation.nodup_idsIn_cons.1 nodup
  -- What was noted for the operation stays when those after it are visited.
  have away {o : Operation} (ho : o ∈ S.root.subtree) : o.id ∉ (Operation.subtrees S.after).map (·.id) :=
    apart _ (List.mem_map_of_mem ho)
  have refAway := away (o := .captureRef S.ref S.capture) (by rw [S.subtree_root]; simp)
  have storeAway := away (o := S.store) (by rw [S.subtree_root]; simp)
  have rootAway := away S.root.mem_subtree_self
  unfold Analysis.runBlock
  rw [S.operations]
  simp only [Visit.ensures_bind, Visit.ensures_setState, Visit.ensures_forM_append, Visit.ensures_forM_cons,
    Visit.ensures_recordBefore, Visit.ensures_pure]
  refine (Analysis.visitAll_traces distinct names husual S.captures preserves
    (fun o ho => listed o (List.mem_append_left _ ho)) nodupBefore (m := { m with state := s })
    (tidy.congr rfl rfl rfl)).mono fun _ m₁ before => ?_
  refine (S.visit_gives distinct names husual preserves (m := { m₁ with notes :=
    { m₁.notes with before := m₁.notes.before.insert S.root.id m₁.state } }) (l := l ++ Operation.subtrees S.before)
    (before.tidy.congr rfl rfl rfl) ?_).mono fun _ m₂ root => ?_
  · refine before.binds.trans ?_
    rw [binds, Operation.lastCaptured_append, Option.map_or]
  obtain ⟨trace, noted, entity, v, value, gives⟩ := root
  refine (Analysis.visitAll_traces distinct names husual S.captures preserves
    (fun o ho => listed o (List.mem_append_right _ (List.mem_cons_of_mem _ ho))) nodupAfter trace.tidy).mono
    fun _ m₃ after => ?_
  refine (Analysis.leaveScope_spares preserves S.block.leavingScope after.tidy.method).mono fun _ m₄ left => ?_
  obtain ⟨notes, left⟩ := left
  rw [Visit.ensures_state, notes]
  have covers := ctx.graph.covers_temporaries ctx.owner
  have kept := after.spares _ _ covers
  refine ⟨(kept.entities _ refAway).trans entity, m₁.state, v, ?_, (kept.values _ storeAway).trans value, ?_⟩
  · refine (kept.before _ rootAway).trans ?_
    rw [noted]
    exact FinMap.find?_insert_self _ _ _
  · have last {x : Symbol} {aliases : List CaptureId} (stays : S.Stays x aliases) :
        m₄.state.find? (ctx.variable x) = m₂.state.find? (ctx.variable x) :=
      (left x stays.scope).trans ((after.spares x aliases stays.covers).holds stays.after)
    refine ⟨fun x aliases stays same => (last stays).trans ?_, fun x aliases stays spares other => (last stays).trans ?_⟩
    · exact gives.target x aliases ⟨stays.covers, stays.last⟩ same
    · exact gives.others x aliases ⟨stays.covers, stays.last⟩ spares other

end CapturedStore

end Dataflow
