import Dataflow.Analysis.Solver
import Dataflow.Proofs.Variables.Reading

/-!
# Visits of operation trees

If the hooks of an analysis are sound, so is its visit of an operation of any shape and
depth: the state that it leaves fits every store that an evaluation leaves, its value describes
the result, and the values that it notes describe what is evaluated on the way.

## What is proved

`visit_visited`, by induction over operands. Where an operation visits operands in a row the
visits add up in the order of evaluation. What an assignment writes to and what a call gets by
reference are variables that are visited but not read (`After.unread`).
-/

namespace Dataflow

variable {V C : Type}

/-! ### Names -/

/-- A variable is resolved to its name, and the names stay coherent. Only here it matters that
identifiers are distinct: the resolver remembers its answers by them. -/
theorem Coherent.resolve {ctx : Context V} {m : Machine V} (h : Coherent ctx m)
    (distinct : ctx.graph.DistinctIds) {op : Operation} (hop : op ∈ Operation.subtrees ctx.graph.operations)
    {x : Symbol} (hx : op.symbol? = some x) :
    ∃ r, m.notes.resolver.resolve op none [] = (some (.localVar x ctx.owner), r) ∧
      ∀ m' : Machine V, m'.notes.resolver = r → Coherent ctx m' := by
  have volatile : Resolver.isVolatile op = false := by
    cases op <;> simp_all [Operation.symbol?, Resolver.isVolatile]
  have name : m.notes.resolver.entity? op none [] = some (.localVar x ctx.owner) := by
    rw [← h.method]
    cases op <;> simp_all [Operation.symbol?, Resolver.entity?, Resolver.localVar]
  unfold Resolver.resolve
  rw [volatile, if_neg Bool.false_ne_true]
  cases hl : m.notes.resolver.answers.lookup ⟨op.id, none, []⟩ with
  | some a =>
    refine ⟨m.notes.resolver, ?_, fun m' hm' => h.congr hm'⟩
    simp only [hl]
    rw [h.answers op hop x hx a hl]
  | none =>
    refine ⟨{ m.notes.resolver with
      answers := (⟨op.id, none, []⟩, some (.localVar x ctx.owner)) :: m.notes.resolver.answers }, ?_,
      fun m' hm' => ⟨?_, ?_⟩⟩
    · simp only [hl, name]
    · rw [hm']
      exact h.method
    · intro o ho y hy a ha
      rw [hm', List.lookup_cons] at ha
      split at ha
      · rename_i heq
        have hid : o.id = op.id := by
          have := eq_of_beq heq
          exact congrArg ResolverKey.operation this
        obtain rfl := distinct.id_inj ho hop hid
        rw [hx, Option.some.injEq] at hy
        rw [← hy]
        exact (Option.some.inj ha).symm
      · exact h.answers o ho y hy a ha

/-! ### Steps of a visit -/

namespace Visit

/-- An operand tells what was visited, and its entity if it is a variable. -/
theorem ensures_operand {A : Analysis V} {ctx : Context V} {op : Operation} {parameter : Option Symbol}
    {refKind : RefKind} {v : V} {m : Machine V} {Q : Operand V → Machine V → Prop}
    (h : ∀ a : Operand V, a.refKind = refKind → a.value = v →
      (op.symbol?.isSome = true → a.entity = m.notes.entities.find? op.id) → Q a m) :
    Ensures (A.operand ctx op parameter refKind v) m Q := by
  unfold Analysis.operand
  dsimp only
  split
  · rw [ensures_bind, ensures_entityOf, ensures_pure]
    exact h _ rfl rfl fun _ => rfl
  · rename_i hn
    rw [ensures_bind, ensures_pure, ensures_pure]
    refine h _ rfl rfl fun hx => absurd ?_ hn
    cases op <;> simp_all [Operation.symbol?, Operation.isReference]

/-- Naming a position changes nothing. -/
theorem ensures_elementIndex {op : Operation} {m : Machine V} {Q : ElementIndex → Machine V → Prop}
    (h : ∀ i, Q i m) : Ensures (Analysis.elementIndex op) m Q := by
  unfold Analysis.elementIndex
  split
  · rw [ensures_pure]
    exact h _
  · rw [ensures_bind, ensures_entityOf]
    split
    · rw [ensures_pure]
      exact h _
    · rw [ensures_pure]
      exact h _

end Visit

/-! ### Operands in a row -/

section Walk

variable {R : Reading V C} {F : Fragment} {M : Meaning C} {A : Analysis V} {ctx : Context V}
variable {usual : Call V → Visit V V}

/-- What a visit of an operation achieves. A variable is visited without an effect, and its name is
noted. -/
def VisitSpec (R : Reading V C) (M : Meaning C) (A : Analysis V) (ctx : Context V) (usual : Call V → Visit V V)
    (op : Operation) : Prop :=
  ∀ m, Coherent ctx m → R.good m.state → Visit.Ensures (A.visit ctx usual op) m fun a m' =>
    Visited R M ctx op m a m' ∧ ∀ x, op.symbol? = some x →
      m'.state = m.state ∧ m'.notes.entities.find? op.id = some (.localVar x ctx.owner)

/-- Positions and sizes are evaluated from left to right. -/
theorem visitPositions_after {ops : List Operation} (spec : ∀ o ∈ ops, VisitSpec R M A ctx usual o)
    (nodup : (Operation.idsIn ops).Nodup) {m : Machine V} (coherent : Coherent ctx m) (good : R.good m.state) :
    Visit.Ensures (A.visitPositions ctx usual ops) m fun _ m' =>
      After R M ctx ops ops m (fun _ _ _ => True) m' := by
  induction ops generalizing m with
  | nil =>
    rw [Analysis.visitPositions, Visit.ensures_pure]
    exact (After.nil coherent good).mono fun _ _ _ _ => trivial
  | cons op ops ih =>
    rw [Analysis.visitPositions, Visit.ensures_bind]
    refine (spec op List.mem_cons_self m coherent good).mono fun a m₁ hop => ?_
    rw [Visit.ensures_bind]
    refine Visit.ensures_elementIndex fun i => ?_
    have rest := (Operation.nodup_idsIn_cons.1 nodup).2.1
    rw [Visit.ensures_bind]
    refine (ih (fun o ho => spec o (List.mem_cons_of_mem _ ho)) rest hop.1.coherent hop.1.good).mono
      fun is m₂ hops => ?_
    rw [Visit.ensures_pure]
    exact (hop.1.append hops nodup).mono fun _ _ _ _ => trivial

/-- The entities that operands pass by reference. -/
def passedEntities (as : List (Operand V)) : List Entity :=
  as.filterMap fun a => if a.refKind.isByRef then a.entity else none

/-- If an argument by reference is a variable, it passes the storage of the variable before what the other arguments
pass. -/
theorem passedEntities_cons {owner : Symbol} {arg : Argument Operation} {args : List (Argument Operation)} {a : Operand V}
    {as : List (Operand V)} (kind : a.refKind = arg.refKind)
    (named : arg.refKind.isByRef = true → ∃ x, arg.value.symbol? = some x ∧ a.entity = some (.localVar x owner))
    (rest : passedEntities as = (Operation.passedSymbols args).map (Entity.localVar · owner)) :
    passedEntities (a :: as) = (Operation.passedSymbols (arg :: args)).map (Entity.localVar · owner) := by
  unfold passedEntities Operation.passedSymbols at rest ⊢
  rw [List.filterMap_cons, kind]
  cases href : arg.refKind.isByRef with
  | false =>
    rw [List.filter_cons_of_neg (by simpa using href)]
    exact rest
  | true =>
    obtain ⟨x, symbol, entity⟩ := named href
    rw [if_pos rfl, entity, List.filter_cons_of_pos (by simpa using href), List.filterMap_cons, symbol, List.map_cons]
    exact congrArg _ rest

/-- Arguments are evaluated from left to right. Those that are not `taken` are variables, and they
are not read. What is passed by reference are variables, too. -/
theorem visitArguments_after (taken : RefKind → Bool) {args : List (Argument Operation)}
    (spec : ∀ a ∈ args, VisitSpec R M A ctx usual a.value)
    (unread : ∀ a ∈ args, taken a.refKind = false → ∃ x, a.value.symbol? = some x)
    (nodup : (Operation.idsIn (args.map (·.value))).Nodup) {m : Machine V} (coherent : Coherent ctx m)
    (good : R.good m.state) :
    Visit.Ensures (A.visitArguments ctx usual args) m fun as m' =>
      After R M ctx (args.map (·.value)) ((args.filter fun a => taken a.refKind).map (·.value)) m
          (fun _ _ rs => List.Forall₂ (fun a r => ∀ v, r = some v → ∃ s τ, R.describes s τ a v)
            ((as.filter fun a => taken a.refKind).map (·.value)) rs) m' ∧
        ((∀ a ∈ args, a.refKind.isByRef = true → ∃ x, a.value.symbol? = some x) →
          passedEntities as = (Operation.passedSymbols args).map (Entity.localVar · ctx.owner)) := by
  induction args generalizing m with
  | nil =>
    rw [Analysis.visitArguments, Visit.ensures_pure]
    refine ⟨(After.nil coherent good).mono fun _ _ rs h => ?_, fun _ => rfl⟩
    rw [h]
    exact .nil
  | cons arg args ih =>
    obtain ⟨parameter, op, refKind⟩ := arg
    rw [Analysis.visitArguments, Visit.ensures_bind]
    refine (spec _ List.mem_cons_self m coherent good).mono fun v m₁ hop => ?_
    rw [Visit.ensures_bind]
    refine Visit.ensures_operand fun a hkind hvalue hentity => ?_
    rw [Visit.ensures_bind]
    rw [List.map_cons] at nodup
    have rest := (Operation.nodup_idsIn_cons.1 nodup).2.1
    refine (ih (fun b hb => spec b (List.mem_cons_of_mem _ hb))
      (fun b hb => unread b (List.mem_cons_of_mem _ hb)) rest hop.1.coherent hop.1.good).mono
      fun as m₂ hargs => ?_
    obtain ⟨hafter, hpassed⟩ := hargs
    rw [Visit.ensures_pure]
    constructor
    · cases htaken : taken refKind with
      | true =>
        rw [List.filter_cons_of_pos (by simpa using htaken), List.map_cons, List.map_cons]
        refine (hop.1.append hafter nodup).mono fun _ _ rs h => ?_
        obtain ⟨rs₁, rs₂, rfl, ⟨s₁, σ₁, r, rfl, hr⟩, hrest⟩ := h
        rw [List.filter_cons_of_pos (by simpa [hkind] using htaken), List.map_cons, hvalue]
        exact .cons (fun v hv => ⟨s₁, σ₁, hr v hv⟩) hrest
      | false =>
        rw [List.filter_cons_of_neg (by simpa using htaken), List.map_cons]
        obtain ⟨x, hx⟩ := unread _ List.mem_cons_self htaken
        refine ((hop.1.unread (hop.2 x hx).1).append hafter nodup).mono fun _ _ rs h => ?_
        obtain ⟨rs₁, rs₂, rfl, ⟨-, -, rfl⟩, hrest⟩ := h
        rw [List.filter_cons_of_neg (by simpa [hkind] using htaken)]
        exact hrest
    · intro hvars
      refine passedEntities_cons hkind (fun href => ?_) (hpassed fun b hb => hvars b (List.mem_cons_of_mem _ hb))
      obtain ⟨x, hx⟩ := hvars _ List.mem_cons_self href
      exact ⟨x, hx, (hentity (by rw [show op.symbol? = some x from hx]; rfl)).trans (hop.2 x hx).2⟩

/-- The receiver of a call. -/
theorem visitReceiver_after {receiver : Option Operation} (spec : ∀ o ∈ receiver.toList, VisitSpec R M A ctx usual o)
    {m : Machine V} (coherent : Coherent ctx m) (good : R.good m.state) :
    Visit.Ensures (A.visitReceiver ctx usual receiver) m fun _ m' =>
      After R M ctx receiver.toList receiver.toList m (fun _ _ _ => True) m' := by
  cases receiver with
  | none =>
    rw [Analysis.visitReceiver, Visit.ensures_pure]
    exact (After.nil coherent good).mono fun _ _ _ _ => trivial
  | some op =>
    rw [Analysis.visitReceiver, Visit.ensures_bind]
    refine (spec op (by simp) m coherent good).mono fun a m₁ hop => ?_
    rw [Visit.ensures_bind]
    refine Visit.ensures_operand fun _ _ _ _ => ?_
    rw [Visit.ensures_pure]
    exact hop.1.mono fun _ _ _ _ => trivial

/-! ### All operations -/

/-- A variable yields what it holds. -/
theorem Step.of_symbol? {op : Operation} {x : Symbol} (hx : op.symbol? = some x) {rs : List (Option C)}
    {r : Option C} {σ σ' : Store C} (h : Step M op rs σ r σ') : σ' = σ ∧ σ x = r := by
  cases h with
  | localRef hv =>
    obtain rfl := Option.some.inj hx
    exact ⟨rfl, hv⟩
  | parameterRef hv =>
    obtain rfl := Option.some.inj hx
    exact ⟨rfl, hv⟩
  | _ => cases hx

/-- A variable is resolved to its name and read. -/
theorem visit_variable [DecidableEq V] (S : R.Sound F M A ctx usual) (distinct : ctx.graph.DistinctIds)
    {op : Operation} (mem : op ∈ Operation.subtrees ctx.graph.operations)
    (nodup : (op.subtree.map (·.id)).Nodup) {x : Symbol} (hx : op.symbol? = some x) :
    VisitSpec R M A ctx usual op := by
  intro m coherent good
  obtain ⟨r, hr, hcoherent⟩ := coherent.resolve distinct mem hx
  have leaf : op.operands = [] ∧ op.evaluated = [] := by
    cases op <;> first | exact ⟨rfl, rfl⟩ | cases hx
  have operands : After R M ctx op.operands op.evaluated m (fun _ _ rs => rs = []) m := by
    rw [leaf.1, leaf.2]
    exact .nil coherent good
  have read : Visit.Ensures (Visit.resolve op none [] >>= A.reference ctx op) m fun a m₁ =>
      (Visited R M ctx op m a { m₁ with notes := { m₁.notes with values := m₁.notes.values.insert op.id a } }) ∧
        m₁.state = m.state ∧ m₁.notes.entities.find? op.id = some (.localVar x ctx.owner) := by
    rw [Visit.ensures_bind, Visit.ensures_resolve_some hr]
    refine Visit.Ensures.mono (S.reference op x _ hx ?_) fun a m₁ h => ?_
    · exact good
    obtain ⟨hstate, hnotes, hsound⟩ := h
    refine ⟨After.node nodup operands (hcoherent _ hnotes.resolver) (hstate ▸ good) hnotes.before hnotes.values ?_,
      hstate, by rw [hnotes.entities]; exact FinMap.find?_insert_self _ _ _⟩
    intro σ rs r' σ' hfits _ hstep _
    obtain ⟨rfl, hv⟩ := Step.of_symbol? hx hstep
    rw [hstate]
    exact ⟨hfits, fun v hr' => hsound σ' v hfits (hv.trans hr')⟩
  have body : A.visit ctx usual op = do
      let v ← Visit.resolve op none [] >>= A.reference ctx op
      Visit.recordValue op.id v
      return v := by
    cases op with
    | localRef i y =>
      rw [Analysis.visit]
      rfl
    | parameterRef i y =>
      rw [Analysis.visit]
      rfl
    | _ => cases hx
  rw [body, Visit.ensures_bind]
  refine read.mono fun a m₁ h => ?_
  rw [Visit.ensures_bind, Visit.ensures_recordValue, Visit.ensures_pure]
  refine ⟨h.1, fun y hy => ⟨h.2.1, ?_⟩⟩
  rw [hx, Option.some.injEq] at hy
  exact hy ▸ h.2.2

theorem visit_ret {i : OperationInfo} {value : Option Operation}
    (nodup : ((Operation.ret i value).subtree.map (·.id)).Nodup)
    (onValue : ∀ o ∈ value.toList, VisitSpec R M A ctx usual o) : VisitSpec R M A ctx usual (.ret i value) := by
  intro m coherent good
  rw [Analysis.visit]
  cases value with
  | none =>
    simp only [Visit.ensures_bind, Visit.ensures_pure, Visit.ensures_recordValue, Analysis.visitResult]
    refine ⟨After.node nodup (After.nil coherent good) coherent good rfl rfl ?_, fun x hx => by cases hx⟩
    intro σ rs r σ' hfits _ hstep _
    cases hstep with
    | retNothing => exact ⟨hfits, fun v hv => by cases hv⟩
  | some op =>
    simp only [Visit.ensures_bind, Visit.ensures_pure, Visit.ensures_recordValue, Analysis.visitResult,
      Visit.ensures_recordReturn]
    refine (onValue op (by simp) m coherent good).mono fun a m₁ hvalue => ?_
    have coherent' : Coherent ctx { m₁ with notes := { m₁.notes with
        returns := m₁.notes.returns.insert i.id a } } := hvalue.1.coherent.congr rfl
    refine ⟨After.node nodup hvalue.1 coherent' hvalue.1.good rfl rfl ?_, fun x hx => by cases hx⟩
    rintro σ rs r σ' hfits ⟨r₁, rfl, hdesc⟩ hstep -
    cases hstep with
    | ret =>
      refine ⟨hfits, fun v hv => ?_⟩
      obtain rfl := Option.some.inj hv
      exact hdesc _ rfl

/-- What is known of the results of all operands in turn, if all of them have one. -/
theorem forall₂_of_map_some {P : V → C → Prop} {as : List V} {vs : List C}
    (h : List.Forall₂ (fun a r => ∀ v, r = some v → P a v) as (vs.map some)) : List.Forall₂ P as vs := by
  induction vs generalizing as with
  | nil =>
    cases h
    exact .nil
  | cons v vs ih =>
    cases h with
    | cons ha has => exact .cons (ha v rfl) (ih has)

section Constructors

-- The equations of the visit are derived once, ahead of the lemmas that rewrite with them.
attribute [local simp] Analysis.visit

variable [DecidableEq V] (S : R.Sound F M A ctx usual)
include S

theorem visit_literal {i : OperationInfo} {l : Literal}
    (nodup : ((Operation.literal i l).subtree.map (·.id)).Nodup) :
    VisitSpec R M A ctx usual (.literal i l) := by
  intro m coherent good
  rw [Analysis.visit]
  simp only [Visit.ensures_bind, Visit.ensures_pure, Visit.ensures_recordValue]
  refine ⟨After.value nodup (After.nil coherent good) rfl (.refl m) ?_, fun x hx => by cases hx⟩
  intro σ rs r σ' hfits _ hstep
  cases hstep with
  | literal hl =>
    refine ⟨rfl, fun v hv => ?_⟩
    obtain rfl := Option.some.inj hv
    exact S.literal i l m.state σ _ good hfits hl

/-- The target is visited first, and only then the value; its entity is still noted when the value
is written. -/
theorem visit_assignment {i : OperationInfo} {target value : Operation} {x : Symbol} (hx : target.symbol? = some x)
    (nodup : ((Operation.assignment i target value).subtree.map (·.id)).Nodup)
    (onTarget : VisitSpec R M A ctx usual target) (onValue : VisitSpec R M A ctx usual value) :
    VisitSpec R M A ctx usual (.assignment i target value) := by
  intro m coherent good
  rw [Analysis.visit]
  simp only [Visit.ensures_bind, Visit.ensures_pure, Visit.ensures_recordValue, Visit.ensures_entityOf]
  refine (onTarget m coherent good).mono fun _ m₁ htarget => ?_
  rw [(htarget.2 x hx).2]
  refine (onValue m₁ htarget.1.coherent htarget.1.good).mono fun a m₂ hvalue => ?_
  refine (S.assign i target value x m₂ a hx hvalue.1.good).mono fun b m₃ hassign => ?_
  obtain ⟨hgood, hnotes, hsound⟩ := hassign
  have operands := (htarget.1.unread (htarget.2 x hx).1).append hvalue.1 (Operation.nodup_operands nodup)
  refine ⟨After.node nodup operands (hvalue.1.coherent.congr hnotes.resolver) hgood hnotes.before
    hnotes.values ?_, fun y hy => by cases hy⟩
  rintro σ rs r σ' hfits ⟨rs₁, rs₂, rfl, ⟨-, -, rfl⟩, r₂, rfl, hdesc⟩ hstep hallowed
  cases hstep with
  | assignment hy =>
    obtain rfl := Option.some.inj (hx.symm.trans hy)
    obtain ⟨hfits', hdesc'⟩ := hsound σ _ hfits (hdesc _ rfl) hallowed
    refine ⟨hfits', fun v hv => ?_⟩
    obtain rfl := Option.some.inj hv
    exact hdesc'

theorem visit_binary {i : OperationInfo} {operator : BinaryOperator} {left right : Operation}
    (nodup : ((Operation.binary i operator left right).subtree.map (·.id)).Nodup)
    (onLeft : VisitSpec R M A ctx usual left) (onRight : VisitSpec R M A ctx usual right) :
    VisitSpec R M A ctx usual (.binary i operator left right) := by
  intro m coherent good
  rw [Analysis.visit]
  simp only [Visit.ensures_bind, Visit.ensures_pure, Visit.ensures_recordValue]
  refine (onLeft m coherent good).mono fun a m₁ hleft => ?_
  refine (onRight m₁ hleft.1.coherent hleft.1.good).mono fun b m₂ hright => ?_
  refine (S.binary i operator left right m₂ a b hright.1.good).mono fun c m₃ hbinary => ?_
  obtain ⟨hstate, hnotes, hsound⟩ := hbinary
  have operands := hleft.1.append hright.1 (Operation.nodup_operands nodup)
  refine ⟨After.value nodup operands hstate hnotes ?_, fun y hy => by cases hy⟩
  rintro σ rs r σ' hfits ⟨rs₁, rs₂, rfl, ⟨s₁, σ₁, r₁, rfl, hl⟩, r₂, rfl, hr⟩ hstep
  cases hstep with
  | binary hw =>
    refine ⟨rfl, fun v hv => ?_⟩
    obtain rfl := Option.some.inj hv
    exact hsound σ _ _ _ hfits ⟨s₁, σ₁, hl _ rfl⟩ ⟨m₂.state, σ, hr _ rfl⟩ hw

theorem visit_conversion (hF : F.conversions = true) {i : OperationInfo} {operand : Operation}
    (nodup : ((Operation.conversion i operand).subtree.map (·.id)).Nodup)
    (onOperand : VisitSpec R M A ctx usual operand) : VisitSpec R M A ctx usual (.conversion i operand) := by
  intro m coherent good
  rw [Analysis.visit]
  simp only [Visit.ensures_bind, Visit.ensures_pure, Visit.ensures_recordValue]
  refine (onOperand m coherent good).mono fun a m₁ hoperand => ?_
  refine (S.convert hF i operand m₁ a hoperand.1.good).mono fun b m₂ hconvert => ?_
  obtain ⟨hstate, hnotes, hsound⟩ := hconvert
  refine ⟨After.value nodup hoperand.1 hstate hnotes ?_, fun y hy => by cases hy⟩
  rintro σ rs r σ' hfits ⟨r₁, rfl, hdesc⟩ hstep
  cases hstep with
  | conversion hw =>
    refine ⟨rfl, fun v hv => ?_⟩
    obtain rfl := Option.some.inj hv
    exact hsound σ _ _ hfits (hdesc _ rfl) hw

theorem visit_creation (hF : F.objects = true) {i : OperationInfo} {args : List (Argument Operation)}
    (nodup : ((Operation.objectCreation i args).subtree.map (·.id)).Nodup)
    (onArguments : ∀ a ∈ args, VisitSpec R M A ctx usual a.value) :
    VisitSpec R M A ctx usual (.objectCreation i args) := by
  intro m coherent good
  rw [Analysis.visit]
  simp only [Visit.ensures_bind, Visit.ensures_pure, Visit.ensures_recordValue]
  refine (visitArguments_after (fun _ => true) onArguments (fun _ _ h => by cases h)
    (Operation.nodup_operands nodup) coherent good).mono fun as m₁ hargs => ?_
  obtain ⟨hafter, -⟩ := hargs
  simp only [List.filter_true] at hafter
  refine (S.create hF i args m₁ _ hafter.good).mono fun b m₂ hcreate => ?_
  obtain ⟨hstate, hnotes, hsound⟩ := hcreate
  refine ⟨After.value nodup hafter hstate hnotes ?_, fun y hy => by cases hy⟩
  intro σ rs r σ' hfits hknown hstep
  cases hstep with
  | creation hw =>
    refine ⟨rfl, fun v hv => ?_⟩
    obtain rfl := Option.some.inj hv
    exact hsound σ _ _ hfits (forall₂_of_map_some hknown) hw

theorem visit_array (hF : F.arrays = true) {i : OperationInfo} {dims : List Operation}
    (nodup : ((Operation.arrayCreation i dims).subtree.map (·.id)).Nodup)
    (onDimensions : ∀ o ∈ dims, VisitSpec R M A ctx usual o) :
    VisitSpec R M A ctx usual (.arrayCreation i dims) := by
  intro m coherent good
  rw [Analysis.visit]
  simp only [Visit.ensures_bind, Visit.ensures_pure, Visit.ensures_recordValue]
  refine (visitPositions_after onDimensions (Operation.nodup_operands nodup) coherent good).mono
    fun _ m₁ hdims => ?_
  refine (S.createArray hF i dims m₁ hdims.good).mono fun b m₂ hcreate => ?_
  obtain ⟨hstate, hnotes, hsound⟩ := hcreate
  refine ⟨After.value nodup hdims hstate hnotes ?_, fun y hy => by cases hy⟩
  intro σ rs r σ' hfits _ hstep
  cases hstep with
  | array hw =>
    refine ⟨rfl, fun v hv => ?_⟩
    obtain rfl := Option.some.inj hv
    exact hsound σ _ hfits hw

theorem visit_invocation (hF : F.calls = true) {i : OperationInfo} {method : Symbol} {receiver : Option Operation}
    {args : List (Argument Operation)}
    (references : ∀ a ∈ args, a.refKind.isByRef = true → F.references = true ∧ ∃ x, a.value.symbol? = some x)
    (nodup : ((Operation.invocation i method receiver args).subtree.map (·.id)).Nodup)
    (onReceiver : ∀ o ∈ receiver.toList, VisitSpec R M A ctx usual o)
    (onArguments : ∀ a ∈ args, VisitSpec R M A ctx usual a.value) :
    VisitSpec R M A ctx usual (.invocation i method receiver args) := by
  intro m coherent good
  have operandIds := Operation.nodup_operands nodup
  rw [Analysis.visit]
  simp only [Visit.ensures_bind, Visit.ensures_pure, Visit.ensures_recordValue, Visit.ensures_checkCancelled,
    Visit.ensures_modifyHits]
  intro _
  refine (visitReceiver_after onReceiver coherent good).mono fun receiver' m₁ hreceiver => ?_
  have argIds : (Operation.idsIn (args.map (·.value))).Nodup := by
    rw [Operation.operands, Operation.idsIn_append] at operandIds
    exact (List.nodup_append.1 operandIds).2.1
  refine (visitArguments_after (fun k => !k.isByRef) onArguments
    (fun a ha h => (references a ha (by simpa using h)).2) argIds hreceiver.coherent hreceiver.good).mono
    fun args' m₂ hargs => ?_
  obtain ⟨hafter, hpassed⟩ := hargs
  have none : F.references = false → Operation.passedSymbols args = [] := by
    intro hreferences
    unfold Operation.passedSymbols
    rw [List.filter_eq_nil_iff.2 fun a ha href => ?_, List.filterMap_nil]
    exact absurd (references a ha href).1 (by simp [hreferences])
  refine (S.invoke hF _ (Operation.passedSymbols args) _ ?_ none ?_).mono fun b m₃ hinvoke => ?_
  · exact hafter.good
  · exact hpassed fun a ha href => (references a ha href).2
  obtain ⟨hgood, hnotes, hsound⟩ := hinvoke
  refine ⟨After.node nodup (hreceiver.append hafter operandIds) (hafter.coherent.congr hnotes.resolver) hgood
    hnotes.before hnotes.values ?_, fun y hy => by cases hy⟩
  intro σ rs r σ' hfits _ hstep _
  cases hstep with
  | call hw hover =>
    obtain ⟨hfits', hdesc⟩ := hsound σ σ' _ hfits hover hw
    refine ⟨hfits', fun v hv => ?_⟩
    obtain rfl := Option.some.inj hv
    exact hdesc

/-- Every operation of the body is visited: by induction over operands. -/
theorem visit_visited (within : ctx.graph.Within F) (distinct : ctx.graph.DistinctIds) (op : Operation)
    (nodup : (op.subtree.map (·.id)).Nodup)
    (mem : ∀ o ∈ op.subtree, o ∈ Operation.subtrees ctx.graph.operations) : VisitSpec R M A ctx usual op := by
  induction op using Operation.operandInduction with
  | h op ih =>
    have self := mem op (Operation.mem_subtree_self op)
    have allowed : op.isWithin F = true := within op self
    have spec : ∀ o ∈ op.operands, VisitSpec R M A ctx usual o := by
      intro o ho
      refine ih o ho (Operation.nodup_of_mem ho (Operation.nodup_operands nodup)) fun p hp => mem p ?_
      exact Operation.mem_subtree_of_mem_operands ho hp
    cases op with
    | localRef i x => exact visit_variable S distinct self nodup rfl
    | parameterRef i x => exact visit_variable S distinct self nodup rfl
    | literal i l => exact visit_literal S nodup
    | assignment i target value =>
      obtain ⟨x, hx⟩ := Option.isSome_iff_exists.1 allowed
      exact visit_assignment S hx nodup (spec target (by simp [Operation.operands]))
        (spec value (by simp [Operation.operands]))
    | binary i operator left right =>
      exact visit_binary S nodup (spec left (by simp [Operation.operands]))
        (spec right (by simp [Operation.operands]))
    | conversion i operand => exact visit_conversion S allowed nodup (spec operand (by simp [Operation.operands]))
    | objectCreation i args =>
      exact visit_creation S allowed nodup fun a ha => spec a.value (List.mem_map.2 ⟨a, ha, rfl⟩)
    | arrayCreation i dims => exact visit_array S allowed nodup spec
    | invocation i method receiver args =>
      simp only [Operation.isWithin, Bool.and_eq_true, List.all_eq_true, Bool.or_eq_true] at allowed
      refine visit_invocation S allowed.1 (fun a ha href => ?_) nodup
        (fun o ho => spec o (List.mem_append_left _ ho))
        fun a ha => spec a.value (List.mem_append_right _ (List.mem_map.2 ⟨a, ha, rfl⟩))
      rcases allowed.2 a ha with h | h
      · simp [href] at h
      · exact ⟨h.1, Option.isSome_iff_exists.1 h.2⟩
    | ret i value => exact visit_ret nodup spec
    | _ => cases allowed

end Constructors

end Walk

end Dataflow
