import Dataflow.Proofs.Locals.Frame
import Dataflow.Proofs.Variables.Program
import Dataflow.Proofs.Visit.Names

/-!
# What may store into a variable

A local or a parameter is stored into by its name, or by way of a temporary that captured its location. In a body with
distinct identifiers nothing else is taken for it: every other operation leaves it as it is.

## The notions

* `Operation.mayName`, `Operation.mayStore`: whether an operation names a variable, or may store into it, if some
  temporaries may stand for it.
* `Graph.Covers`: these are all temporaries that may.
* `Distinguishes`: a machine takes nothing for the variable that does not name it.

## What is proved

Visits keep machines that way, they change the variable only by operations that may store into it, and what they note
they note about the operations that they visit (`Analysis.visit_spares`, `Analysis.visitAll_spares`). So a body without
such operations keeps what the variable holds from the start to the end (`Analysis.solveBody_spares`).
-/

namespace Dataflow

variable {V : Type}

/-! ### Names of a variable -/

namespace Operation

variable (x : Symbol) (aliases : List CaptureId)

/-- Whether an operation names the variable, or a temporary that may stand for it. -/
def mayName : Operation → Bool
  | .localRef _ y | .parameterRef _ y => y = x
  | .captureRef _ c | .capture _ c _ _ => c ∈ aliases
  | _ => false

/-- Whether an operation may store into the variable. -/
def mayStore : Operation → Bool
  | .assignment _ target _ => target.mayName x aliases
  | .capture _ c _ false => c ∈ aliases
  | .invocation _ _ _ arguments => arguments.any fun a => a.refKind.isByRef && a.value.mayName x aliases
  | _ => false

end Operation

namespace Graph

variable (g : Graph) (x : Symbol) (aliases : List CaptureId)

/-- Whatever captures the location of the variable is among some temporaries, and so are their copies. -/
def Covers : Prop :=
  ∀ i c target, Operation.capture i c target true ∈ Operation.subtrees g.operations →
    target.mayName x aliases = true → c ∈ aliases

/-- No operation of the body may store into the variable, and its scope does not end. -/
structure Spares : Prop where
  /-- The temporaries are all that may stand for the variable. -/
  covers : g.Covers x aliases
  /-- There is no store. -/
  stores : ∀ op ∈ Operation.subtrees g.operations, op.mayStore x aliases = false
  /-- The variable stays in scope. -/
  scopes : ∀ b ∈ g.blocks, x ∉ b.leavingScope

end Graph

/-! ### Machines -/

/-- The machine takes nothing for the variable that does not name it. -/
structure Distinguishes (ctx : Context V) (x : Symbol) (aliases : List CaptureId) (m : Machine V) : Prop where
  /-- The names belong to the body. -/
  method : m.notes.resolver.method = ctx.owner
  /-- What is remembered. -/
  faithful : m.notes.resolver.Faithful ctx
  /-- What temporaries stand for. -/
  bindings : ∀ c, m.notes.resolver.bindings.find? c = some (.localVar x ctx.owner) → c ∈ aliases
  /-- What is noted for operations. -/
  entities : ∀ op ∈ Operation.subtrees ctx.graph.operations,
    m.notes.entities.find? op.id = some (.localVar x ctx.owner) → op.mayName x aliases = true

/-- What some operations leave as it is, in the order in which they are evaluated: what was noted about others, and the
variable unless one of them may store into it. -/
structure Sparing (ctx : Context V) (x : Symbol) (aliases : List CaptureId) (l : List Operation) (m m' : Machine V) :
    Prop where
  /-- Nothing else is taken for the variable. -/
  distinguishes : Distinguishes ctx x aliases m'
  /-- The variable keeps what it holds. -/
  holds : (∀ op ∈ l, op.mayStore x aliases = false) →
    m'.state.find? (.localVar x ctx.owner) = m.state.find? (.localVar x ctx.owner)
  /-- Values of other operations. -/
  values : ∀ id ∉ l.map (·.id), m'.notes.values.find? id = m.notes.values.find? id
  /-- Entities of other operations. -/
  entities : ∀ id ∉ l.map (·.id), m'.notes.entities.find? id = m.notes.entities.find? id
  /-- States before other operations. -/
  before : ∀ id ∉ l.map (·.id), m'.notes.before.find? id = m.notes.before.find? id

section Machines

variable {ctx : Context V} {x : Symbol} {aliases : List CaptureId} {m m' m'' : Machine V} {l l' : List Operation}

theorem Distinguishes.congr (h : Distinguishes ctx x aliases m) (resolver : m'.notes.resolver = m.notes.resolver)
    (entities : m'.notes.entities = m.notes.entities) : Distinguishes ctx x aliases m' := by
  refine ⟨?_, ?_, ?_, ?_⟩
  · rw [resolver]
    exact h.method
  · rw [resolver]
    exact h.faithful
  · rw [resolver]
    exact h.bindings
  · rw [entities]
    exact h.entities

/-- A machine that has seen nothing takes nothing for the variable. -/
theorem distinguishes_of_start (x : Symbol) (aliases : List CaptureId)
    (h : m.notes = Notes.start (Resolver.start ctx.owner ctx.tracksUnknown)) : Distinguishes ctx x aliases m := by
  refine ⟨?_, ?_, ?_, ?_⟩
  · rw [h]
    rfl
  · rw [h]
    exact Resolver.faithful_start ctx
  · intro c hc
    rw [h] at hc
    simp [Notes.start, Resolver.start] at hc
  · intro op _ hop
    rw [h] at hop
    simp [Notes.start] at hop

theorem Sparing.refl (h : Distinguishes ctx x aliases m) : Sparing ctx x aliases [] m m :=
  ⟨h, fun _ => rfl, fun _ _ => rfl, fun _ _ => rfl, fun _ _ => rfl⟩

theorem Sparing.append (h : Sparing ctx x aliases l m m') (h' : Sparing ctx x aliases l' m' m'') :
    Sparing ctx x aliases (l ++ l') m m'' where
  distinguishes := h'.distinguishes
  holds spares := (h'.holds fun op hop => spares op (List.mem_append_right _ hop)).trans
    (h.holds fun op hop => spares op (List.mem_append_left _ hop))
  values id hid := by
    rw [List.map_append, List.mem_append, not_or] at hid
    exact (h'.values id hid.2).trans (h.values id hid.1)
  entities id hid := by
    rw [List.map_append, List.mem_append, not_or] at hid
    exact (h'.entities id hid.2).trans (h.entities id hid.1)
  before id hid := by
    rw [List.map_append, List.mem_append, not_or] at hid
    exact (h'.before id hid.2).trans (h.before id hid.1)

end Machines

/-- The names that a resolver gives to the variable. -/
theorem Resolver.mayName_of_entity? {r : Resolver} {method x : Symbol} {aliases : List CaptureId} {op : Operation}
    {owner : Option PointsTo} {indices : List ElementIndex}
    (bindings : ∀ c, r.bindings.find? c = some (.localVar x method) → c ∈ aliases)
    (h : r.entity? op owner indices = some (.localVar x method)) : op.mayName x aliases = true := by
  have temporary {c : CaptureId} {type : Option TypeRef} (h : r.temporary c type = .localVar x method) : c ∈ aliases := by
    unfold Resolver.temporary at h
    cases hc : r.bindings.find? c with
    | none =>
      rw [hc] at h
      cases h
    | some e =>
      rw [hc] at h
      exact bindings c (hc.trans (congrArg some h))
  cases op with
  | localRef i y | parameterRef i y =>
    obtain ⟨rfl, -⟩ := Entity.localVar.inj (Option.some.inj h)
    simp [Operation.mayName]
  | captureRef i c | capture i c value byLocation =>
    simpa [Operation.mayName] using temporary (Option.some.inj h)
  | fieldRef i o field =>
    simp only [Resolver.entity?] at h
    split at h
    · cases h
    · obtain ⟨_, -, h⟩ := Option.map_eq_some_iff.1 h
      cases h
  | elementRef i array is =>
    obtain ⟨_, -, h⟩ := Option.map_eq_some_iff.1 h
    cases h
  | _ => cases h

/-- An operation that names a variable is looked up as the variable. -/
theorem Resolver.Faithful.resolve_symbol {ctx : Context V} {r : Resolver} (h : r.Faithful ctx) (method : r.method = ctx.owner)
    (distinct : ctx.graph.DistinctIds) {op : Operation} (hop : op ∈ Operation.subtrees ctx.graph.operations) {x : Symbol}
    (hx : op.symbol? = some x) : (r.resolve op none []).1 = some (.localVar x ctx.owner) := by
  rw [(h.resolve distinct hop none []).1, ← method]
  cases op with
  | localRef i y | parameterRef i y =>
    obtain rfl := Option.some.inj hx
    rfl
  | _ => cases hx

namespace Analysis

/-! ### Own steps -/

section Visits

variable {A : Analysis V} {ctx : Context V} {x : Symbol} {aliases : List CaptureId} {m : Machine V} {op : Operation}
variable (distinct : ctx.graph.DistinctIds) (covers : ctx.graph.Covers x aliases)

/-- What an operation does itself: its own entity is noted, and nothing else. -/
structure OwnSparing (ctx : Context V) (x : Symbol) (aliases : List CaptureId) (op : Operation) (m m' : Machine V) :
    Prop where
  /-- Nothing else is taken for the variable. -/
  distinguishes : Distinguishes ctx x aliases m'
  /-- The variable keeps what it holds. -/
  holds : op.mayStore x aliases = false →
    m'.state.find? (.localVar x ctx.owner) = m.state.find? (.localVar x ctx.owner)
  /-- The values of operations. -/
  values : m'.notes.values = m.notes.values
  /-- Entities of other operations. -/
  entities : ∀ id ≠ op.id, m'.notes.entities.find? id = m.notes.entities.find? id
  /-- The states before operations. -/
  before : m'.notes.before = m.notes.before

variable (op) in
/-- A step that names no storage. -/
theorem ownSparing_of_keeps {α : Type} {y : Visit V α} (h : Distinguishes ctx x aliases m) (keepsNames : Visit.KeepsNames y)
    {K : Entity → Prop} (keeps : Visit.Preserves K y)
    (hK : op.mayStore x aliases = false → K (.localVar x ctx.owner)) :
    Visit.Ensures y m fun _ m' => OwnSparing ctx x aliases op m m' := by
  intro a m' hrun
  obtain ⟨resolver, entities⟩ := keepsNames m a m' hrun
  obtain ⟨state, values, before⟩ := keeps m a m' hrun
  exact ⟨h.congr resolver entities, fun spares => state _ (hK spares), values, fun id _ => by rw [entities], before⟩

include distinct in
/-- A name is looked up, and something is done with it. -/
theorem resolve_bind_ownSparing (hop : op ∈ Operation.subtrees ctx.graph.operations) (h : Distinguishes ctx x aliases m)
    {α : Type} {f : Option Entity → Visit V α} (owner : Option PointsTo) (indices : List ElementIndex)
    (keepsNames : ∀ e, Visit.KeepsNames (f e)) {K : Option Entity → Entity → Prop} (keeps : ∀ e, Visit.Preserves (K e) (f e))
    (hK : op.mayStore x aliases = false →
      ∀ e, (e = some (.localVar x ctx.owner) → op.mayName x aliases = true) → K e (.localVar x ctx.owner)) :
    Visit.Ensures (Visit.resolve op owner indices >>= f) m fun _ m' => OwnSparing ctx x aliases op m m' := by
  obtain ⟨answer, faithful⟩ := h.faithful.resolve distinct hop owner indices
  have named : (m.notes.resolver.resolve op owner indices).1 = some (.localVar x ctx.owner) → op.mayName x aliases = true :=
    fun he => Resolver.mayName_of_entity? h.bindings (answer.symm.trans he)
  rw [Visit.ensures_bind, Visit.ensures_resolve]
  generalize (m.notes.resolver.resolve op owner indices).1 = e at named ⊢
  -- The entity is noted for the operation or erased, and those of others stay.
  have noted : ∀ id ≠ op.id, (e.elim (m.notes.entities.erase op.id) (m.notes.entities.insert op.id)).find? id =
      m.notes.entities.find? id := by
    intro id hid
    cases e with
    | none => exact FinMap.find?_erase_ne _ hid
    | some e => exact FinMap.find?_insert_ne _ _ hid
  have noted_self : (e.elim (m.notes.entities.erase op.id) (m.notes.entities.insert op.id)).find? op.id = e := by
    cases e with
    | none => exact FinMap.find?_erase_self _ _
    | some e => exact FinMap.find?_insert_self _ _ _
  refine (ownSparing_of_keeps op ?_ (keepsNames e) (keeps e) fun spares => hK spares e named).mono
    fun _ m' after => ⟨after.distinguishes, after.holds, after.values, fun id hid => ?_, after.before⟩
  · refine ⟨?_, faithful, fun c hc => h.bindings c (m.notes.resolver.resolve_bindings _ _ _ ▸ hc), fun o ho hentity => ?_⟩
    · exact (Resolver.resolve_method _ _ _ _).trans h.method
    · by_cases hid : o.id = op.id
      · obtain rfl := distinct.id_inj ho hop hid
        exact named (noted_self.symm.trans hentity)
      · exact h.entities o ho ((noted _ hid).symm.trans hentity)
  · exact (after.entities id hid).trans (noted id hid)

include distinct covers in
/-- A temporary is made to stand for storage. -/
theorem link_ownSparing {i : OperationInfo} {c : CaptureId} {target : Operation} (s : Seen V)
    (hop : .capture i c target true ∈ Operation.subtrees ctx.graph.operations) (h : Distinguishes ctx x aliases m)
    (seen : s.entity = some (.localVar x ctx.owner) → target.mayName x aliases = true) :
    Visit.Ensures (A.link (.capture i c target true) c s) m fun _ m' =>
      OwnSparing ctx x aliases (.capture i c target true) m m' := by
  unfold link
  cases he : s.entity with
  | none => exact ownSparing_of_keeps _ h (.pure _) (K := fun _ => True) (.pure _) fun _ => trivial
  | some e =>
    simp only [Visit.recordEntity, Visit.bindCapture, Visit.ensures_bind, Visit.ensures_modifyNotes, Visit.ensures_pure]
    have covered : e = .localVar x ctx.owner → c ∈ aliases := fun same =>
      covers i c target hop (seen (he.trans (congrArg some same)))
    refine ⟨⟨h.method, h.faithful.bind c e, fun d hd => ?_, fun o ho hentity => ?_⟩, fun _ => rfl, rfl, fun id hid => ?_,
      rfl⟩
    · by_cases hcd : d = c
      · rw [hcd]
        rw [hcd] at hd
        exact covered (Option.some.inj ((FinMap.find?_insert_self _ _ _).symm.trans hd))
      · exact h.bindings d ((FinMap.find?_insert_ne _ _ hcd).symm.trans hd)
    · by_cases hid : o.id = i.id
      · obtain rfl := distinct.id_inj ho hop hid
        have same := Option.some.inj ((FinMap.find?_insert_self _ _ _).symm.trans hentity)
        simpa [Operation.mayName] using covered same
      · exact h.entities o ho ((FinMap.find?_insert_ne _ _ hid).symm.trans hentity)
    · exact FinMap.find?_insert_ne _ _ hid

/-- What was seen of operands: those that were taken for the variable name it. -/
def Tells (ctx : Context V) (x : Symbol) (aliases : List CaptureId) (ops : List Operation) (seen : List (Seen V)) : Prop :=
  ∀ p ∈ ops.zip seen, p.2.entity = some (.localVar x ctx.owner) → p.1.mayName x aliases = true

/-- An argument stands for storage if what was seen does. -/
theorem entity_of_argumentOf {argument : Argument Operation} {s : Seen V} {e : Entity}
    (h : (A.argumentOf ctx argument s).entity = some e) : s.entity = some e := by
  simp only [argumentOf, operandOf] at h
  split at h
  · exact h
  · cases h

/-- An argument of a call is what was seen of the operation that is passed. -/
theorem exists_of_getElem?_arguments {i : OperationInfo} {method : Symbol} {receiver : Option Operation}
    {arguments : List (Argument Operation)} {seen : List (Seen V)} {j : Nat} {a : Operand V}
    (h : (A.callOf ctx op method receiver arguments seen).arguments[j]? = some a) :
    ∃ argument s, arguments[j]? = some argument ∧ A.argumentOf ctx argument s = a ∧
      (argument.value, s) ∈ (Operation.invocation i method receiver arguments).operands.zip seen := by
  rw [callOf, List.getElem?_zipWith_eq_some] at h
  obtain ⟨argument, s, hargument, hs, rfl⟩ := h
  refine ⟨argument, s, hargument, rfl, List.mem_of_getElem? (i := receiver.toList.length + j) ?_⟩
  rw [List.getElem?_zip_eq_some]
  rw [List.getElem?_drop] at hs
  refine ⟨?_, hs⟩
  rw [Operation.operands, List.getElem?_append_right (Nat.le_add_right _ _), Nat.add_sub_cancel_left, List.getElem?_map,
    hargument]
  rfl

/-- A call passes the variable by reference only if it may store into it. -/
theorem not_mem_passedStorage {i : OperationInfo} {method : Symbol} {receiver : Option Operation}
    {arguments : List (Argument Operation)} {seen : List (Seen V)}
    (tells : Tells ctx x aliases (Operation.invocation i method receiver arguments).operands seen)
    (spares : (Operation.invocation i method receiver arguments).mayStore x aliases = false) (op : Operation) :
    .localVar x ctx.owner ∉ passedStorage (A.callOf ctx op method receiver arguments seen) := by
  intro passed
  obtain ⟨a, ha, hentity⟩ := List.mem_filterMap.1 passed
  split at hentity
  case isFalse => cases hentity
  rename_i byRef
  obtain ⟨j, hj⟩ := List.mem_iff_getElem?.1 ha
  obtain ⟨argument, s, hargument, rfl, hseen⟩ := exists_of_getElem?_arguments (i := i) hj
  have named := tells _ hseen (entity_of_argumentOf hentity)
  simp only [Operation.mayStore, List.any_eq_false] at spares
  exact spares argument (List.mem_of_getElem? hargument) (by simp [named, show argument.refKind.isByRef = true from byRef])

variable [DecidableEq V] {usual : Call V → Visit V V}
variable (names : A.KeepsNames ctx) (preserves : A.PreservesLocals ctx) (husual : IsUsual A ctx usual)

include names preserves husual distinct covers in
/-- What an operation does after its operands were visited. -/
theorem own_ownSparing (hop : op ∈ Operation.subtrees ctx.graph.operations) {seen : List (Seen V)}
    (tells : Tells ctx x aliases op.operands seen) (h : Distinguishes ctx x aliases m) :
    Visit.Ensures (A.own ctx usual op seen) m fun _ m' => OwnSparing ctx x aliases op m m' := by
  have plain {m : Machine V} (h : Distinguishes ctx x aliases m) {y : Visit V V} (keepsNames : Visit.KeepsNames y)
      (keeps : Visit.Preserves (fun _ => True) y) : Visit.Ensures y m fun _ m' => OwnSparing ctx x aliases op m m' :=
    ownSparing_of_keeps _ h keepsNames keeps fun _ => trivial
  have read (owner : Option PointsTo) (indices : List ElementIndex) :
      Visit.Ensures (Visit.resolve op owner indices >>= A.reference ctx op) m fun _ m' =>
        OwnSparing ctx x aliases op m m' :=
    resolve_bind_ownSparing distinct hop h owner indices (fun e => names.reference _ e)
      (fun e => preserves.reference op e) fun _ _ _ => trivial
  cases op with
  | literal | invalid => exact plain h (.pure _) (.pure _)
  | localRef | parameterRef | receiverRef | captureRef | fieldRef => exact read _ _
  | elementRef =>
    match seen with
    | [] => exact plain h (.pure _) (.pure _)
    | _ :: _ => exact read _ _
  | assignment i target value =>
    match seen, tells with
    | [], _ | [_], _ | _ :: _ :: _ :: _, _ => exact plain h (.pure _) (.pure _)
    | [t, v], tells =>
      refine ownSparing_of_keeps _ h (names.assign _ _ _) (preserves.assign _ _ _) fun spares => ⟨rfl, fun he => ?_⟩
      have named := tells (target, t) (by simp [Operation.operands]) he
      rw [Operation.mayStore, named] at spares
      cases spares
  | objectCreation => exact plain h (names.create _ _) (preserves.create _ _)
  | arrayCreation => exact plain h (names.createArray _) (preserves.createArray _)
  | binary =>
    match seen with
    | [] | [_] | _ :: _ :: _ :: _ => exact plain h (.pure _) (.pure _)
    | [_, _] => exact plain h (names.binary _ _ _ _) (preserves.binary _ _ _ _)
  | conversion =>
    match seen with
    | [] | _ :: _ :: _ => exact plain h (.pure _) (.pure _)
    | [_] => exact plain h (names.convert _ _) (preserves.convert _ _)
  | invocation i method receiver arguments =>
    obtain ⟨deeper, rfl⟩ := husual
    have called := A.handleCall_keepsNames ctx (A.callOf ctx (.invocation i method receiver arguments) method receiver
      arguments seen) deeper
    refine ownSparing_of_keeps _ (K := fun e => e = .localVar x ctx.owner ∧
      (Operation.invocation i method receiver arguments).mayStore x aliases = false) h
      ((Visit.KeepsNames.modifyHits _).bind fun _ => names.invoke _ _ called) ?_ fun spares => ⟨rfl, spares⟩
    refine (Visit.Preserves.modifyHits _).bind fun _ => preserves.invoke _ _ _ ?_
    refine handleCall_preserves preserves.write (fun e he => ?_) (fun e he => ?_) deeper
    · rw [he.1]
      rfl
    · rw [he.1]
      exact not_mem_passedStorage tells he.2 _
  | capture i c value byLocation =>
    match byLocation, seen, tells with
    | true, [], _ | true, _ :: _ :: _, _ | false, [], _ | false, _ :: _ :: _, _ => exact plain h (.pure _) (.pure _)
    | true, [s], tells =>
      exact link_ownSparing distinct covers s hop h (tells (value, s) (by simp [Operation.operands]))
    | false, [v], _ =>
      refine resolve_bind_ownSparing distinct hop h none [] (fun e => names.assign _ e _)
        (K := fun e a => a.isMethodLocal = true ∧ e ≠ some a) (fun e => preserves.assign _ e _)
        fun spares e named => ⟨rfl, fun he => ?_⟩
      have stored := named he
      simp_all [Operation.mayStore, Operation.mayName]
  | ret =>
    match seen with
    | [] | _ :: _ :: _ => exact plain h (.pure _) (.pure _)
    | [_] =>
      exact plain h ((Visit.KeepsNames.recordReturn _ _).bind fun _ => .pure _)
        (Visit.Preserves.bind (.modifyNotes fun _ => ⟨rfl, rfl⟩) fun _ => .pure _)

/-! ### Visits -/

include names preserves husual distinct covers in
/-- The visit of an operation, and of all below it. -/
theorem visit_spares (hop : op ∈ Operation.subtrees ctx.graph.operations) (h : Distinguishes ctx x aliases m) :
    Visit.Ensures (A.visit ctx usual op) m fun _ m' => Sparing ctx x aliases op.subtree m m' := by
  refine (visit_ensures (T := fun op m _ m' => op ∈ Operation.subtrees ctx.graph.operations → Distinguishes ctx x aliases m →
    Sparing ctx x aliases op.subtree m m') ?_ op m).mono fun _ _ spares => spares hop h
  intro op m seen m₁ trail v m₂ hrun hop h
  have operand {o : Operation} (ho : o ∈ op.operands) : o ∈ Operation.subtrees ctx.graph.operations :=
    Operation.mem_subtrees_of_mem_operands hop ho
  obtain ⟨spared, tells⟩ : Sparing ctx x aliases (Operation.subtrees op.operands) m m₁ ∧ Tells ctx x aliases op.operands seen := by
    clear hrun
    generalize op.operands = ops at trail operand
    induction trail with
    | nil => exact ⟨.refl h, fun _ hp => by cases hp⟩
    | @cons o ops m m₁ m₂ v seen first _ ih =>
      have first := first (operand List.mem_cons_self) h
      obtain ⟨others, tells⟩ := ih first.distinguishes fun ho => operand (List.mem_cons_of_mem _ ho)
      rw [Operation.subtrees_cons]
      refine ⟨first.append others, fun p hp => ?_⟩
      rcases List.mem_cons.1 hp with rfl | hp
      · exact first.distinguishes.entities o (operand List.mem_cons_self)
      · exact tells p hp
  have own := own_ownSparing distinct covers names preserves husual hop tells spared.distinguishes v m₂ hrun
  rw [Operation.subtree_eq]
  refine spared.append ⟨own.distinguishes.congr rfl rfl, fun spares => own.holds (spares op (by simp)), fun id hid => ?_,
    fun id hid => ?_, fun id _ => by rw [own.before]⟩
  · refine (FinMap.find?_insert_ne _ _ (by simpa using hid)).trans ?_
    rw [own.values]
  · exact own.entities id (by simpa using hid)

include names preserves husual distinct covers in
/-- Visits of operations of a block, one after the other. -/
theorem visitAll_spares {ops : List Operation} (hops : ∀ o ∈ ops, o ∈ Operation.subtrees ctx.graph.operations)
    (h : Distinguishes ctx x aliases m) :
    Visit.Ensures (ops.forM fun op => do
      Visit.recordBefore op.id
      let _ ← A.visit ctx usual op) m fun _ m' => Sparing ctx x aliases (Operation.subtrees ops) m m' := by
  induction ops generalizing m with
  | nil =>
    rw [Visit.ensures_forM_nil]
    exact .refl h
  | cons op ops ih =>
    simp only [Visit.ensures_forM_cons, Visit.ensures_bind, Visit.ensures_recordBefore, Visit.ensures_pure]
    refine (visit_spares distinct covers names preserves husual (hops op List.mem_cons_self)
      (m := { m with notes := { m.notes with before := m.notes.before.insert op.id m.state } }) (h.congr rfl rfl)).mono
      fun _ m₁ first => ?_
    refine (ih (fun o ho => hops o (List.mem_cons_of_mem _ ho)) first.distinguishes).mono fun _ m₂ others => ?_
    have first : Sparing ctx x aliases op.subtree m m₁ := by
      refine ⟨first.distinguishes, first.holds, first.values, first.entities, fun id hid => ?_⟩
      have other : id ≠ op.id := fun same => hid (same ▸ op.id_mem_subtree)
      exact (first.before id hid).trans (FinMap.find?_insert_ne _ _ other)
    rw [Operation.subtrees_cons]
    exact first.append others

include preserves in
omit [DecidableEq V] in
/-- The end of the scope of other variables. -/
theorem leaveScope_spares (locals : List Symbol) (method : m.notes.resolver.method = ctx.owner) :
    Visit.Ensures (A.leaveScope locals) m fun _ m' => m'.notes = m.notes ∧
      ∀ x ∉ locals, m'.state.find? (.localVar x ctx.owner) = m.state.find? (.localVar x ctx.owner) := by
  unfold leaveScope
  induction locals generalizing m with
  | nil =>
    rw [Visit.ensures_forM_nil]
    exact ⟨rfl, fun _ _ => rfl⟩
  | cons y locals ih =>
    simp only [Visit.ensures_forM_cons, Visit.ensures_bind, Visit.ensures_notes, Visit.ensures_update]
    intro s hs
    rw [preserves.forget] at hs
    obtain rfl := Except.ok.inj hs
    refine (ih (m := { m with state := m.state.erase (m.notes.resolver.localVar y) }) method).mono fun _ m' h =>
      ⟨h.1, fun x hx => ?_⟩
    rw [List.mem_cons, not_or] at hx
    refine (h.2 x hx.2).trans (FinMap.find?_erase_ne _ fun same => hx.1 ?_)
    rw [Resolver.localVar] at same
    exact (Entity.localVar.inj same).1

include names preserves husual distinct in
/-- The visit of a block that spares the variable. -/
theorem runBlock_spares (spares : ctx.graph.Spares x aliases) {b : Block} (hb : b ∈ ctx.graph.blocks) (s : State V)
    (h : Distinguishes ctx x aliases m) :
    Visit.Ensures (A.runBlock ctx usual b s) m fun out m' => Distinguishes ctx x aliases m' ∧
      out.find? (.localVar x ctx.owner) = s.find? (.localVar x ctx.owner) := by
  unfold runBlock
  simp only [Visit.ensures_bind, Visit.ensures_setState]
  refine (visitAll_spares distinct spares.covers names preserves husual (Graph.allOperations_subset hb) (m := { m with state := s })
    (h.congr rfl rfl)).mono fun _ m₁ visited => ?_
  refine (leaveScope_spares preserves b.leavingScope visited.distinguishes.method).mono fun _ m₂ left => ?_
  rw [Visit.ensures_state]
  refine ⟨visited.distinguishes.congr (by rw [left.1]) (by rw [left.1]), (left.2 x (spares.scopes b hb)).trans (visited.holds fun o ho => ?_)⟩
  exact spares.stores o (Graph.subtrees_allOperations_subset hb o ho)

/-! ### Bodies -/

include names preserves husual distinct in
/-- A body that spares the variable keeps what its caller has put into it, wherever control may get to. -/
theorem solveBody_spares (valid : ctx.graph.Valid) (spares : ctx.graph.Spares x aliases)
    (idem : ∀ v, A.domain.merge v v = v) {ledger ledger' : Ledger V} {sol : Solution V}
    (h : (A.solveBody ctx usual).run ledger = (.ok sol, ledger')) {s : State V} {v : V} (entry : ctx.entry = some s)
    (hs : s.find? (.localVar x ctx.owner) = some v) {i : BlockId} (hi : ctx.graph.Reachable i) :
    ∃ out, sol.exits.find? i = some out ∧ out.find? (.localVar x ctx.owner) = some v := by
  let K : Invariant V :=
    { state := fun s => s.find? (.localVar x ctx.owner) = some v
      machine := Distinguishes ctx x aliases
      block := fun _ _ _ _ => True }
  have kept (initial : State V) (hinitial : A.initialState ctx = .ok initial) : K.Kept A ctx usual initial := by
    refine ⟨?_, fun s t hs ht => State.find?_merge_of_same idem hs ht, fun s t hs ht => State.find?_widen_of_same idem hs ht,
      fun b hb m s hm hstate => ?_⟩
    · rw [initialState, entry] at hinitial
      exact Except.ok.inj hinitial ▸ hs
    · refine (runBlock_spares distinct names preserves husual spares (mem_blocks_of_mem_sweepOrder hb) s hm).mono
        fun out m' after => ?_
      exact ⟨after.1, after.2.trans hstate, trivial, fun _ _ _ _ _ _ => trivial⟩
  obtain ⟨initial, p, m, -, rfl, holds, settled⟩ := solveBody_holds h valid (distinguishes_of_start x aliases rfl) kept
  obtain ⟨b, hb⟩ := valid.exists_of_reachable hi
  obtain ⟨-, out, hout, -⟩ := exists_visit_of_reachable valid holds settled (P := fun _ => True)
    (fun _ _ _ _ => trivial) hi hb fun _ _ => trivial
  rw [valid.id_of_block? hb] at hout
  exact ⟨out, hout, holds.exits i out hout⟩

end Visits

end Analysis

end Dataflow
