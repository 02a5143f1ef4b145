import Dataflow.Proofs.Locals.Stores

/-!
# Visits in the order of evaluation

A visit of a tree takes the own steps of its operations one after the other, those of operands first. In a body with
distinct identifiers nothing of what was noted about an operand is lost until the operation takes its own step. So a visit
is a run over the list of operations in the order of evaluation, and it can be cut wherever the list is cut.

## The notions

* `Tidy`: a machine in which operations that were visited stand for the variables that they name, and no others do.
* `Evaluates`: a run of own steps.

## What is proved

Visits of operations are such runs (`Analysis.visit_evaluates`). They keep machines tidy, and what they leave as it is
follows from the list alone (`Evaluates.spares`).
-/

namespace Dataflow

variable {V : Type}

/-! ### Machines -/

/-- Operations that were visited stand for the variables that they name, and no others stand for variables. -/
structure Tidy (ctx : Context V) (m : Machine V) : Prop where
  /-- Nothing else is taken for a variable. -/
  distinguishes : ∀ x aliases, ctx.graph.Covers x aliases → Distinguishes ctx x aliases m
  /-- An operation that names a variable stands for it. -/
  named : ∀ op ∈ Operation.subtrees ctx.graph.operations, ∀ x, op.symbol? = some x →
    (m.notes.values.find? op.id).isSome = true → m.notes.entities.find? op.id = some (.localVar x ctx.owner)

/-- What was seen of some operations is what is noted about them. -/
def Told (m : Machine V) (ops : List Operation) (seen : List (Seen V)) : Prop :=
  List.Forall₂ (fun o s => m.notes.values.find? o.id = some s.value ∧ m.notes.entities.find? o.id = s.entity) ops seen

/-- An operation takes its own step and its value is noted. -/
def Steps (A : Analysis V) (ctx : Context V) (usual : Call V → Visit V V) (op : Operation) (m m' : Machine V) : Prop :=
  ∃ seen v m₁, Told m op.operands seen ∧ ExceptT.run (A.own ctx usual op seen) m = (.ok v, m₁) ∧
    m' = { m₁ with notes := { m₁.notes with values := m₁.notes.values.insert op.id v } }

/-- Operations take their own steps, one after the other. -/
inductive Evaluates (A : Analysis V) (ctx : Context V) (usual : Call V → Visit V V) :
    List Operation → Machine V → Machine V → Prop
  /-- No operation takes a step. -/
  | nil (m : Machine V) : Evaluates A ctx usual [] m m
  /-- An operation takes its step, and then the others. -/
  | cons {op : Operation} {l : List Operation} {m m₁ m₂ : Machine V} (step : Steps A ctx usual op m m₁)
      (rest : Evaluates A ctx usual l m₁ m₂) : Evaluates A ctx usual (op :: l) m m₂

/-- All temporaries that are captured in. -/
def Graph.temporaries (g : Graph) : List CaptureId :=
  (Operation.subtrees g.operations).filterMap fun
    | .capture _ c _ _ => some c
    | _ => none

/-- The temporaries that are captured in are all that may stand for a variable. -/
theorem Graph.covers_temporaries (g : Graph) (x : Symbol) : g.Covers x g.temporaries :=
  fun _ _ _ h _ => List.mem_filterMap.2 ⟨_, h, rfl⟩

section Runs

variable {A : Analysis V} {ctx : Context V} {usual : Call V → Visit V V} {l l' : List Operation} {m m' m'' : Machine V}
variable {op : Operation}

theorem Tidy.faithful (h : Tidy ctx m) : m.notes.resolver.Faithful ctx :=
  (h.distinguishes _ _ (ctx.graph.covers_temporaries ctx.owner)).faithful

theorem Tidy.method (h : Tidy ctx m) : m.notes.resolver.method = ctx.owner :=
  (h.distinguishes _ _ (ctx.graph.covers_temporaries ctx.owner)).method

theorem Tidy.congr (h : Tidy ctx m) (resolver : m'.notes.resolver = m.notes.resolver)
    (entities : m'.notes.entities = m.notes.entities) (values : m'.notes.values = m.notes.values) : Tidy ctx m' := by
  refine ⟨fun x aliases covers => (h.distinguishes x aliases covers).congr resolver entities, ?_⟩
  rw [entities, values]
  exact h.named

/-- A machine that has seen nothing is tidy. -/
theorem tidy_of_start (h : m.notes = Notes.start (Resolver.start ctx.owner ctx.tracksUnknown)) : Tidy ctx m := by
  refine ⟨fun x aliases _ => distinguishes_of_start x aliases h, fun op _ x _ visited => ?_⟩
  rw [h] at visited
  simp [Notes.start] at visited

theorem Evaluates.append (h : Evaluates A ctx usual l m m') (h' : Evaluates A ctx usual l' m' m'') :
    Evaluates A ctx usual (l ++ l') m m'' := by
  induction h with
  | nil => exact h'
  | cons step _ ih => exact .cons step (ih h')

theorem Evaluates.split (h : Evaluates A ctx usual (l ++ l') m m'') :
    ∃ m', Evaluates A ctx usual l m m' ∧ Evaluates A ctx usual l' m' m'' := by
  induction l generalizing m with
  | nil => exact ⟨m, .nil m, h⟩
  | cons op l ih =>
    cases h with
    | cons step rest =>
      obtain ⟨m', first, second⟩ := ih rest
      exact ⟨m', .cons step first, second⟩

theorem evaluates_singleton : Evaluates A ctx usual [op] m m' ↔ Steps A ctx usual op m m' := by
  constructor
  · rintro (_ | ⟨step, rest⟩)
    cases rest
    exact step
  · exact fun step => .cons step (.nil m')

/-- Operands that are taken for a variable name it. -/
theorem tells_of_told {x : Symbol} {aliases : List CaptureId} {seen : List (Seen V)}
    (hop : op ∈ Operation.subtrees ctx.graph.operations) (told : Told m op.operands seen)
    (h : Distinguishes ctx x aliases m) : Analysis.Tells ctx x aliases op.operands seen := by
  intro p hp entity
  have noted := (List.forall₂_zip told hp).2
  exact h.entities p.1 (Operation.mem_subtrees_of_mem_operands hop (List.of_mem_zip hp).1) (noted.trans entity)

namespace Analysis

variable [DecidableEq V] (distinct : ctx.graph.DistinctIds) (names : A.KeepsNames ctx) (husual : IsUsual A ctx usual)

include distinct names in
omit [DecidableEq V] in
/-- An operation that names a variable stands for it. -/
theorem own_named (hop : op ∈ Operation.subtrees ctx.graph.operations) (h : Tidy ctx m) {x : Symbol}
    (hx : op.symbol? = some x) (seen : List (Seen V)) : Visit.Ensures (A.own ctx usual op seen) m fun _ m' =>
      m'.notes.entities.find? op.id = some (.localVar x ctx.owner) := by
  have read : A.own ctx usual op seen = Visit.resolve op none [] >>= A.reference ctx op := by
    cases op with
    | localRef | parameterRef => rfl
    | _ => cases hx
  rw [read, Visit.ensures_bind, Visit.ensures_resolve, h.faithful.resolve_symbol h.method distinct hop hx]
  refine (names.reference op _ _).mono fun _ m' kept => ?_
  rw [kept.2]
  exact FinMap.find?_insert_self _ _ _

variable (preserves : A.PreservesLocals ctx)
include distinct names husual preserves

/-- What an operation leaves as it is. -/
theorem steps_spares (hop : op ∈ Operation.subtrees ctx.graph.operations) (tidy : Tidy ctx m)
    (h : Steps A ctx usual op m m') {x : Symbol} {aliases : List CaptureId} (covers : ctx.graph.Covers x aliases) :
    Sparing ctx x aliases [op] m m' := by
  obtain ⟨seen, v, m₁, told, run, rfl⟩ := h
  have distinguishes := tidy.distinguishes x aliases covers
  have own := own_ownSparing distinct covers names preserves husual hop (tells_of_told hop told distinguishes) distinguishes
    v m₁ run
  refine ⟨own.distinguishes.congr rfl rfl, fun spares => own.holds (spares op List.mem_cons_self), fun id hid => ?_,
    fun id hid => own.entities id (by simpa using hid), fun id _ => by rw [own.before]⟩
  refine (FinMap.find?_insert_ne _ _ (by simpa using hid)).trans ?_
  rw [own.values]

/-- A step keeps a machine tidy. -/
theorem steps_tidy (hop : op ∈ Operation.subtrees ctx.graph.operations) (tidy : Tidy ctx m)
    (h : Steps A ctx usual op m m') : Tidy ctx m' := by
  have spared {x : Symbol} {aliases : List CaptureId} (covers : ctx.graph.Covers x aliases) :=
    steps_spares distinct names husual preserves hop tidy h covers
  refine ⟨fun x aliases covers => (spared covers).distinguishes, fun o ho x hx visited => ?_⟩
  by_cases hid : o.id = op.id
  · obtain rfl := distinct.id_inj ho hop hid
    obtain ⟨seen, v, m₁, -, run, rfl⟩ := h
    exact own_named distinct names ho tidy hx seen v m₁ run
  · have covers := ctx.graph.covers_temporaries x
    have other : o.id ∉ [op].map (·.id) := by simpa using hid
    rw [(spared covers).values _ other] at visited
    rw [(spared covers).entities _ other]
    exact tidy.named o ho x hx visited

end Analysis

namespace Evaluates

variable [DecidableEq V] (distinct : ctx.graph.DistinctIds) (names : A.KeepsNames ctx)
variable (husual : Analysis.IsUsual A ctx usual) (preserves : A.PreservesLocals ctx)
include distinct names husual preserves

theorem tidy (h : Evaluates A ctx usual l m m') (hl : ∀ o ∈ l, o ∈ Operation.subtrees ctx.graph.operations)
    (tidy : Tidy ctx m) : Tidy ctx m' := by
  induction h with
  | nil => exact tidy
  | cons step _ ih =>
    exact ih (fun o ho => hl o (List.mem_cons_of_mem _ ho))
      (Analysis.steps_tidy distinct names husual preserves (hl _ List.mem_cons_self) tidy step)

/-- What operations leave as it is. -/
theorem spares (h : Evaluates A ctx usual l m m') (hl : ∀ o ∈ l, o ∈ Operation.subtrees ctx.graph.operations)
    (tidy : Tidy ctx m) {x : Symbol} {aliases : List CaptureId} (covers : ctx.graph.Covers x aliases) :
    Sparing ctx x aliases l m m' := by
  induction h with
  | nil => exact .refl (tidy.distinguishes x aliases covers)
  | cons step _ ih =>
    have hop := hl _ List.mem_cons_self
    exact (Analysis.steps_spares distinct names husual preserves hop tidy step covers).append
      (ih (fun o ho => hl o (List.mem_cons_of_mem _ ho)) (Analysis.steps_tidy distinct names husual preserves hop tidy step))

end Evaluates

namespace Analysis

variable [DecidableEq V] (distinct : ctx.graph.DistinctIds) (names : A.KeepsNames ctx) (husual : IsUsual A ctx usual)
variable (preserves : A.PreservesLocals ctx)
include distinct names husual preserves

/-- What was noted about an operation stays when others take their steps. -/
theorem told_of_evaluates (h : Evaluates A ctx usual l m m') (hl : ∀ o ∈ l, o ∈ Operation.subtrees ctx.graph.operations)
    (tidy : Tidy ctx m) {id : OperationId} (hid : id ∉ l.map (·.id)) :
    m'.notes.values.find? id = m.notes.values.find? id ∧ m'.notes.entities.find? id = m.notes.entities.find? id := by
  have covers := ctx.graph.covers_temporaries ctx.owner
  have spared := h.spares distinct names husual preserves hl tidy covers
  exact ⟨spared.values id hid, spared.entities id hid⟩

/-- A visit of an operation is a run over the operations below it and the operation itself. -/
theorem visit_evaluates (hop : op ∈ Operation.subtrees ctx.graph.operations) (nodup : (op.subtree.map (·.id)).Nodup)
    (tidy : Tidy ctx m) : Visit.Ensures (A.visit ctx usual op) m fun v m' =>
      Evaluates A ctx usual op.subtree m m' ∧ m'.notes.values.find? op.id = some v := by
  induction op using Operation.operandInduction generalizing m with
  | h op ih =>
    have operand {o : Operation} (ho : o ∈ op.operands) : o ∈ Operation.subtrees ctx.graph.operations :=
      Operation.mem_subtrees_of_mem_operands hop ho
    simp only [visit_eq, Visit.ensures_bind, Visit.ensures_recordValue, Visit.ensures_pure]
    refine ensures_enter ((seeAll_ensures (T := fun o m v m' => Tidy ctx m →
      Evaluates A ctx usual o.subtree m m' ∧ m'.notes.values.find? o.id = some v) (fun o ho m v m' hrun tidy =>
        ih o ho (operand ho) (Operation.nodup_of_mem ho (Operation.nodup_operands nodup)) tidy v m' hrun) m).mono
      fun seen m₁ trail => ?_)
    obtain ⟨evaluates, told⟩ : Evaluates A ctx usual (Operation.subtrees op.operands) m m₁ ∧ Told m₁ op.operands seen := by
      clear ih
      have apart := Operation.nodup_operands nodup
      generalize op.operands = ops at trail operand apart
      induction trail with
      | nil => exact ⟨.nil _, .nil⟩
      | @cons o ops m m₁ m₂ v seen first _ rest =>
        obtain ⟨first, value⟩ := first tidy
        have below : ∀ a ∈ o.subtree, a ∈ Operation.subtrees ctx.graph.operations := fun a ha =>
          Operation.subtrees_trans (operand List.mem_cons_self) ha
        rw [Operation.nodup_idsIn_cons] at apart
        obtain ⟨others, told⟩ := rest (first.tidy distinct names husual preserves below tidy)
          (fun ho => operand (List.mem_cons_of_mem _ ho)) apart.2.1
        rw [Operation.subtrees_cons]
        refine ⟨first.append others, .cons ?_ told⟩
        have outside : o.id ∉ (Operation.subtrees ops).map (·.id) := apart.2.2 _ o.id_mem_subtree
        have kept := told_of_evaluates distinct names husual preserves others (fun a ha => by
          obtain ⟨o', ho', ha⟩ := List.mem_flatMap.1 ha
          exact Operation.subtrees_trans (operand (List.mem_cons_of_mem _ ho')) ha)
          (first.tidy distinct names husual preserves below tidy) outside
        exact ⟨kept.1.trans value, kept.2⟩
    refine fun v m₂ hrun => ⟨?_, FinMap.find?_insert_self _ _ _⟩
    rw [Operation.subtree_eq]
    exact evaluates.append (evaluates_singleton.2 ⟨seen, v, m₂, told, hrun, rfl⟩)

end Analysis

end Runs

end Dataflow
