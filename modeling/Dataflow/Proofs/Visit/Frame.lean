import Dataflow.Analysis.Contents
import Dataflow.Analysis.Copies
import Dataflow.Analysis.PointsTo
import Dataflow.Analysis.Taint
import Dataflow.Proofs.Variables.Boundary
import Dataflow.Proofs.Entity.Resolver
import Dataflow.Proofs.Visit.Steps

/-!
# What calls and steps of an analysis leave as it is

Much of a machine is left as it is by most of what a visit does: the ledger is shared, and a call notes the solution of
the callee and the hits in it. So a relation of the machines before and after that is reflexive and transitive, and of
which these are no part, holds of all visits that are made of such steps.

## The notions

* `Visit.Relates`: the machines before and after a visit are in a relation.
* `Visit.Steady`: relations that hold along visits, for they are reflexive and transitive.
* `Visit.Frame`: relations of which the ledger and what is noted about calls are no part.
* `Analysis.StepsRelate`: the steps of an analysis, stores apart, relate machines.

## What is proved

However a call is handled, it relates machines if the stores that it may make do (`Analysis.handleCall_relates`): those
to storage that it passes by reference and to storage of no method. The steps of the analyses of references, of copies and
of literal content relate machines (`Analysis.pointsTo_stepsRelate`, `Analysis.copies_stepsRelate`,
`Analysis.contents_stepsRelate`), and so do those of the analysis of taint if origins are no part of the relation either
(`Analysis.taint_stepsRelate`). If stores do, too, and names and returned values are no part of it, then all operations
but calls relate machines (`Analysis.own_relates`).
-/

namespace Dataflow

variable {V α β : Type}

/-! ### Visits -/

namespace Visit

/-- If the visit succeeds, then the machines before and after it are in a relation. -/
def Relates (R : Machine V → Machine V → Prop) (x : Visit V α) : Prop := ∀ m, Ensures x m fun _ m' => R m m'

/-- A relation of machines that holds along visits. -/
structure Steady (R : Machine V → Machine V → Prop) : Prop where
  refl : ∀ m, R m m
  trans : ∀ {m m' m''}, R m m' → R m' m'' → R m m''

/-- A relation of machines of which the ledger and what is noted about calls are no part. -/
structure Frame (R : Machine V → Machine V → Prop) : Prop extends Steady R where
  ledger : ∀ m l, R m { m with ledger := l }
  hits : ∀ m h, R m { m with notes := { m.notes with hits := h } }
  callees : ∀ m c, R m { m with notes := { m.notes with callees := c } }

namespace Steady

variable {R : Machine V → Machine V → Prop} (F : Steady R) {x : Visit V α} {f : α → Visit V β}
include F

theorem pure (a : α) : Relates R (pure a : Visit V α) := fun m => (ensures_pure a m _).2 (F.refl m)

theorem bind (h : Relates R x) (hf : ∀ a, Relates R (f a)) : Relates R (x >>= f) := by
  intro m
  rw [ensures_bind]
  exact (h m).mono fun a m₁ h₁ => (hf a m₁).mono fun _ _ h₂ => F.trans h₁ h₂

theorem get : Relates R (get : Visit V (Machine V)) := fun m => (ensures_get m _).2 (F.refl m)

theorem state : Relates R (state : Visit V (State V)) := fun m => (ensures_state m _).2 (F.refl m)

theorem notes : Relates R (notes : Visit V (Notes V)) := fun m => (ensures_notes m _).2 (F.refl m)

theorem check (c : Checked α) : Relates R (check c : Visit V α) := fun m => (ensures_check c m _).2 fun _ _ => F.refl m

theorem checkCancelled : Relates R (checkCancelled : Visit V Unit) :=
  fun m => (ensures_checkCancelled m _).2 fun _ => F.refl m

theorem forM {l : List β} {f : β → Visit V PUnit} (h : ∀ b ∈ l, Relates R (f b)) : Relates R (l.forM f) := by
  induction l with
  | nil => exact F.pure _
  | cons b l ih => exact F.bind (h b List.mem_cons_self) fun _ => ih fun c hc => h c (List.mem_cons_of_mem _ hc)

end Steady

namespace Frame

variable {R : Machine V → Machine V → Prop} (F : Frame R)
include F

theorem modifyHits (f : HitLog → HitLog) : Relates R (modifyHits f : Visit V Unit) :=
  fun m => (ensures_modifyHits f m _).2 (F.hits m _)

theorem modifyCallees (f : FinMap OperationId (Solution V) → FinMap OperationId (Solution V)) :
    Relates R (modifyNotes fun n => { n with callees := f n.callees }) :=
  fun m => (ensures_modifyNotes _ m _).2 (F.callees m _)

theorem modifyLedger (f : Ledger V → Ledger V) : Relates R (modifyLedger f) :=
  fun m => (ensures_modify _ m _).2 (F.ledger m _)

/-- A run over another body has a state and notes of its own. -/
theorem ofRun (r : Run V α) : Relates R (ofRun r) := by
  intro m a m' h
  have run : ExceptT.run (Visit.ofRun r) m =
      ((r.run.run m.ledger).1, { m with ledger := (r.run.run m.ledger).2 }) := rfl
  obtain ⟨-, rfl⟩ := Prod.mk.inj (run.symm.trans h)
  exact F.ledger m _

end Frame

end Visit

namespace Analysis

/-! ### Calls -/

/-- What comes back is what the callee leaves in the parameter of an argument that is passed by reference. -/
theorem exists_of_mem_passedBack {A : Analysis V} {call : Call V} {sol : Solution V} {inContext : Bool} {x : Entity × V}
    (h : x ∈ A.passedBack call sol inContext) : ∃ a p, (a, some p) ∈ bindings call sol.graph ∧
      a.refKind.isByRef = true ∧ a.entity = some x.1 ∧ x.2 = A.returnedValue inContext
        (sol.finish.elim (A.escapedValue x.1) fun exit => State.valueOr A.domain exit (.localVar p sol.owner)) := by
  obtain ⟨⟨a, parameter⟩, ha, hsome⟩ := List.mem_filterMap.1 h
  dsimp only at hsome
  split at hsome
  · rename_i e p byRef entity
    obtain rfl := Option.some.inj hsome
    refine ⟨a, p, ha, byRef, entity, congrArg (A.returnedValue inContext) ?_⟩
    cases sol.finish <;> rfl
  · cases hsome

/-- What comes back is stored into storage that was passed by reference. -/
theorem mem_passedStorage_of_mem_passedBack {A : Analysis V} {call : Call V} {sol : Solution V} {inContext : Bool}
    {x : Entity × V} (h : x ∈ A.passedBack call sol inContext) : x.1 ∈ passedStorage call := by
  obtain ⟨a, p, ha, byRef, entity, -⟩ := exists_of_mem_passedBack h
  refine List.mem_filterMap.2 ⟨a, (List.of_mem_zip ha).1, ?_⟩
  rw [if_pos byRef, entity]

/-- News concern storage of no method. -/
theorem isMethodLocal_of_mem_news [DecidableEq V] {callee : Symbol} {exit caller : State V} {x : Entity × V}
    (h : x ∈ news callee exit caller) : x.1.isMethodLocal = false := by
  have := (List.mem_filter.1 h).2
  simp only [Bool.and_eq_true, Bool.not_eq_eq_eq_not, Bool.not_true] at this
  exact this.1.1

section Calls

variable {R : Machine V → Machine V → Prop} {A : Analysis V} {ctx : Context V} {call : Call V}

section Solutions

variable (F : Visit.Frame R)
include F

theorem accepts_relates (method : Symbol) : Visit.Relates R (accepts ctx method) := by
  unfold accepts
  split
  · exact F.pure _
  · dsimp only
    split
    · exact F.bind (F.modifyLedger _) fun _ => F.pure _
    · exact F.pure _

theorem solution?_relates (filed : Ledger V → Option (Solution V)) (file : Solution V → Ledger V → Ledger V)
    (callee : Graph) (solve : Run V (Solution V)) : Visit.Relates R (solution? ctx filed file callee solve) := by
  refine F.bind F.get fun m => ?_
  dsimp only
  cases filed m.ledger with
  | some s => exact F.pure _
  | none =>
    refine F.bind (F.check _) fun reserved => ?_
    cases reserved with
    | none => exact F.pure _
    | some ledger =>
      exact F.bind (F.modifyLedger _) fun _ => F.bind (F.ofRun _) fun _ => F.bind (F.modifyLedger _) fun _ => F.pure _

theorem calleeSolution?_relates [DecidableEq V] (solve : Context V → Run V (Solution V)) (callee : Graph)
    (inContext : Bool) : Visit.Relates R (A.calleeSolution? ctx solve call callee inContext) := by
  cases inContext with
  | false => exact solution?_relates F _ _ _ _
  | true => exact F.bind F.state fun _ => solution?_relates F _ _ _ _

end Solutions

/-! Stores to some entities relate machines. -/

section Stores

variable (F : Visit.Steady R) {P : Entity → Prop} (store : ∀ e v, P e → Visit.Relates R (A.store e v))
include F store

theorem storeAll_relates {l : List (Entity × V)} (h : ∀ x ∈ l, P x.1) : Visit.Relates R (A.storeAll l) :=
  F.forM fun x hx => store x.1 x.2 (h x hx)

/-! These are the storage of no method, and what a call passes by reference. -/

variable (free : ∀ e, e.isMethodLocal = false → P e)
include free

theorem escapeReachable_relates (config : Config) : Visit.Relates R (A.escapeReachable config call) := by
  refine F.bind F.state fun s => storeAll_relates F store fun x hx => ?_
  obtain ⟨e, he, rfl⟩ := List.mem_map.1 hx
  exact free e (isMethodLocal_of_mem_escaped he)

variable (passed : ∀ e ∈ passedStorage call, P e)
include passed

theorem callOpaquely_relates (config : Config) : Visit.Relates R (A.callOpaquely config call) := by
  refine F.bind (storeAll_relates F store fun x hx => ?_) fun _ =>
    F.bind (escapeReachable_relates F store free config) fun _ => F.pure _
  obtain ⟨e, he, rfl⟩ := List.mem_map.1 hx
  exact passed e he

variable [DecidableEq V]

theorem comeBack_relates (sol : Solution V) (inContext : Bool) : Visit.Relates R (A.comeBack ctx call sol inContext) := by
  refine F.bind (storeAll_relates F store fun x hx => passed x.1 (mem_passedStorage_of_mem_passedBack hx)) fun _ => ?_
  cases inContext with
  | false => exact F.bind (escapeReachable_relates F store free _) fun _ => F.pure _
  | true =>
    cases sol.finish with
    | none => exact F.pure _
    | some exit =>
      exact F.bind F.state fun s => F.bind
        (storeAll_relates F store fun x hx => free x.1 (isMethodLocal_of_mem_news hx)) fun _ => F.pure _

end Stores

section Following

variable (F : Visit.Frame R) {P : Entity → Prop} (store : ∀ e v, P e → Visit.Relates R (A.store e v))
variable (free : ∀ e, e.isMethodLocal = false → P e) (passed : ∀ e ∈ passedStorage call, P e) [DecidableEq V]
include F store free passed

theorem follow_relates (solve : Context V → Run V (Solution V)) (callee : Graph) (inContext : Bool) :
    Visit.Relates R (A.follow ctx solve call callee inContext) := by
  have opaquely := callOpaquely_relates F.toSteady store free passed ctx.config
  refine F.bind F.checkCancelled fun _ => F.bind (calleeSolution?_relates F solve callee inContext) fun found => ?_
  cases found with
  | none => exact opaquely
  | some s =>
    refine F.bind (F.modifyHits _) fun _ => F.bind (F.modifyCallees _) fun _ => ?_
    split
    · exact comeBack_relates F.toSteady store free passed s inContext
    · exact opaquely

/-- However a call is handled, it relates machines if the stores do that it may make. -/
theorem handleCall_relates (deeper : Option (Context V → Run V (Solution V))) :
    Visit.Relates R (A.handleCall ctx deeper call) := by
  have opaquely := callOpaquely_relates F.toSteady store free passed ctx.config
  unfold handleCall
  split
  · exact opaquely
  · refine F.bind (accepts_relates F _) fun accept => ?_
    cases accept with
    | false => exact opaquely
    | true =>
      split
      · rename_i stop
        cases stop
      · split
        · exact follow_relates F store free passed _ _ _
        · exact opaquely

end Following

end Calls

/-! ### The analyses -/

/-- The steps of an analysis, stores apart, relate machines, and it handles calls by steps that do. -/
structure StepsRelate (R : Machine V → Machine V → Prop) (A : Analysis V) (ctx : Context V) : Prop where
  reference : ∀ op e, Visit.Relates R (A.reference ctx op e)
  create : ∀ op vs, Visit.Relates R (A.create ctx op vs)
  createArray : ∀ op, Visit.Relates R (A.createArray ctx op)
  binary : ∀ op operator l r, Visit.Relates R (A.binary ctx op operator l r)
  convert : ∀ op v, Visit.Relates R (A.convert op v)
  invoke : ∀ usual call, Visit.Relates R (usual call) → Visit.Relates R (A.invoke ctx usual call)

/-- All operations but calls relate machines if the steps of the analysis and its stores do. -/
theorem own_relates {R : Machine V → Machine V → Prop} {A : Analysis V} {ctx : Context V} {usual : Call V → Visit V V}
    (F : Visit.Steady R) (names : ∀ m r e, R m { m with notes := { m.notes with resolver := r, entities := e } })
    (returns : ∀ m r, R m { m with notes := { m.notes with returns := r } }) (steps : A.StepsRelate R ctx)
    (assign : ∀ op e v, Visit.Relates R (A.assign ctx op e v)) {op : Operation}
    (notCall : ∀ info method receiver arguments, op ≠ .invocation info method receiver arguments) (seen : List (Seen V)) :
    Visit.Relates R (A.own ctx usual op seen) := by
  have read (owner : Option PointsTo) (indices : List ElementIndex) {f : Option Entity → Visit V V}
      (hf : ∀ e, Visit.Relates R (f e)) : Visit.Relates R (Visit.resolve op owner indices >>= f) :=
    F.bind (fun m => (Visit.ensures_resolve op owner indices m _).2 (names m _ _)) hf
  cases op with
  | literal | invalid => exact F.pure _
  | localRef | parameterRef | receiverRef | captureRef | fieldRef => exact read _ _ (steps.reference _)
  | elementRef =>
    cases seen with
    | nil => exact F.pure _
    | cons => exact read _ _ (steps.reference _)
  | assignment =>
    match seen with
    | [] | [_] | _ :: _ :: _ :: _ => exact F.pure _
    | [_, _] => exact assign _ _ _
  | objectCreation => exact steps.create _ _
  | arrayCreation => exact steps.createArray _
  | binary =>
    match seen with
    | [] | [_] | _ :: _ :: _ :: _ => exact F.pure _
    | [_, _] => exact steps.binary _ _ _ _
  | conversion =>
    match seen with
    | [] | _ :: _ :: _ => exact F.pure _
    | [_] => exact steps.convert _ _
  | invocation info method receiver arguments => exact absurd rfl (notCall info method receiver arguments)
  | capture _ _ _ byLocation =>
    match byLocation, seen with
    | true, [] | false, [] | true, _ :: _ :: _ | false, _ :: _ :: _ => exact F.pure _
    | false, [_] => exact read _ _ fun e => assign _ e _
    | true, [⟨_, none⟩] => exact F.pure _
    | true, [⟨_, some _⟩] =>
      exact F.bind (fun m => (Visit.ensures_modifyNotes _ m _).2 (names m m.notes.resolver _)) fun _ =>
        F.bind (fun m => (Visit.ensures_modifyNotes _ m _).2 (names m _ m.notes.entities)) fun _ => F.pure _
  | ret =>
    match seen with
    | [] | _ :: _ :: _ => exact F.pure _
    | [_] => exact F.bind (fun m => (Visit.ensures_recordReturn _ _ m _).2 (returns m _)) fun _ => F.pure _

theorem read_relates {R : Machine V → Machine V → Prop} (F : Visit.Steady R) (D : Domain V) (unknown : V)
    (e : Option Entity) : Visit.Relates R (do
      match e with
      | some e => return State.valueOr D (← Visit.state) e
      | none => return unknown : Visit V V) := by
  cases e with
  | some e => exact F.bind F.state fun _ => F.pure _
  | none => exact F.pure _

theorem PointsToAnalysis.allocation_relates {R : Machine PointsTo → Machine PointsTo → Prop} (F : Visit.Steady R)
    (ctx : Context PointsTo) (op : Operation) : Visit.Relates R (allocation ctx op) :=
  F.check _

theorem pointsTo_stepsRelate {R : Machine PointsTo → Machine PointsTo → Prop} (F : Visit.Steady R)
    (ctx : Context PointsTo) : pointsTo.StepsRelate R ctx where
  reference _ e := read_relates F _ _ e
  create op _ := PointsToAnalysis.allocation_relates F ctx op
  createArray op := PointsToAnalysis.allocation_relates F ctx op
  binary op operator _ _ := by
    show Visit.Relates R (PointsToAnalysis.binary ctx op operator)
    unfold PointsToAnalysis.binary
    split
    · exact PointsToAnalysis.allocation_relates F ctx op
    · exact F.pure _
  convert _ _ := F.pure _
  invoke _ _ h := h

theorem copies_stepsRelate {R : Machine CopyClass → Machine CopyClass → Prop} (F : Visit.Steady R)
    (ctx : Context CopyClass) : copies.StepsRelate R ctx where
  reference _ e := read_relates F _ _ e
  create _ _ := F.pure _
  createArray _ := F.pure _
  binary _ _ _ _ := F.pure _
  convert _ _ := F.pure _
  invoke _ _ h := h

theorem contents_stepsRelate {R : Machine Content → Machine Content → Prop} (F : Visit.Steady R)
    (ctx : Context Content) : contents.StepsRelate R ctx where
  reference _ e := read_relates F _ _ e
  create _ _ := F.pure _
  createArray _ := F.pure _
  binary _ _ _ _ := F.check _
  convert _ _ := F.pure _
  invoke _ _ h := h

namespace TaintAnalysis

/-- A store writes to the target and notes origins. -/
theorem assign_writes (op : Operation) (e : Option Entity) (v : Taint) (m : Machine Taint) :
    Visit.Ensures (assign op e v) m fun w m' => w = v ∧ ∃ entities operations,
      m' = { m with
        state := e.elim m.state fun e => State.write Domain.taint e v m.state
        notes := { m.notes with entityOrigins := entities, operationOrigins := operations } } := by
  unfold assign
  cases storedValue? op <;> cases e
  all_goals
    simp only [Visit.originsOf, Visit.addEntityOrigins, Visit.setOrigins, pure_bind, Visit.ensures_bind,
      Visit.ensures_notes, Visit.ensures_modifyNotes, Visit.ensures_state, Visit.ensures_setState, Visit.ensures_pure]
    exact ⟨trivial, _, _, rfl⟩

section Steps

variable {R : Machine Taint → Machine Taint → Prop} (F : Visit.Steady R)
variable (hits : ∀ m h, R m { m with notes := { m.notes with hits := h } })
variable (origins : ∀ m o, R m { m with notes := { m.notes with operationOrigins := o } })
variable (rules : TaintRules) (ctx : Context Taint)

include origins in
theorem setOrigins_relates (op : OperationId) (o : FinSet SymbolAccess) :
    Visit.Relates R (Visit.setOrigins op o : Visit Taint Unit) :=
  fun m => (Visit.ensures_modifyNotes _ m _).2 (origins m _)

include F

include hits in
theorem recordHits_relates (call : Call Taint) : Visit.Relates R (recordHits rules ctx call) := by
  refine F.forM fun argument _ => ?_
  obtain ⟨a, position⟩ := argument
  unfold recordHit
  dsimp only
  split
  · exact F.bind (F.bind F.notes fun _ => F.pure _) fun _ m => (Visit.ensures_modifyHits _ m _).2 (hits m _)
  · exact F.pure _

include origins

theorem bringIn_relates (symbol : Symbol) (op : Operation) : Visit.Relates R (bringIn ctx symbol op) :=
  F.bind (setOrigins_relates origins _ _) fun _ => F.pure _

theorem passOn_relates (op : Operation) (v : Taint) : Visit.Relates R (passOn op v) :=
  F.bind (F.bind F.notes fun _ => F.pure _) fun _ => F.bind (setOrigins_relates origins _ _) fun _ => F.pure _

theorem readEntity_relates (op : Operation) (e : Option Entity) : Visit.Relates R (readEntity op e) :=
  F.bind (F.bind F.notes fun _ => F.pure _) fun _ => F.bind (setOrigins_relates origins _ _) fun _ => read_relates F _ _ e

theorem reference_relates (op : Operation) (e : Option Entity) : Visit.Relates R (reference rules ctx op e) := by
  unfold reference
  split
  · split
    · exact bringIn_relates F origins ctx _ _
    · exact readEntity_relates F origins _ _
  · exact readEntity_relates F origins _ _

include hits in
theorem invoke_relates {usual : Call Taint → Visit Taint Taint} {call : Call Taint} (h : Visit.Relates R (usual call)) :
    Visit.Relates R (invoke rules ctx usual call) := by
  have after (v : Taint) : Visit.Relates R (do
      if v = .tainted then passOn call.operation v
      else
        Visit.setOrigins call.operation.id FinSet.empty
        return v : Visit Taint Taint) := by
    split
    · exact passOn_relates F origins _ _
    · exact F.bind (setOrigins_relates origins _ _) fun _ => F.pure _
  have rest : Visit.Relates R (if rules.isSourceMethod call.method then bringIn ctx call.method call.operation
      else usual call >>= fun v => (do
        if v = .tainted then passOn call.operation v
        else
          Visit.setOrigins call.operation.id FinSet.empty
          return v : Visit Taint Taint)) := by
    split
    · exact bringIn_relates F origins ctx _ _
    · exact F.bind h after
  unfold invoke
  dsimp only
  split
  · exact F.bind (setOrigins_relates origins _ _) fun _ => F.pure _
  · split
    · exact F.bind (recordHits_relates F hits rules ctx call) fun _ => rest
    · exact rest

end Steps

end TaintAnalysis

theorem taint_stepsRelate {R : Machine Taint → Machine Taint → Prop} (F : Visit.Steady R)
    (hits : ∀ m h, R m { m with notes := { m.notes with hits := h } })
    (origins : ∀ m o, R m { m with notes := { m.notes with operationOrigins := o } }) (rules : TaintRules)
    (ctx : Context Taint) : (taint rules).StepsRelate R ctx where
  reference op e := TaintAnalysis.reference_relates F origins rules ctx op e
  create _ _ := TaintAnalysis.passOn_relates F origins _ _
  createArray _ := F.pure _
  binary _ _ _ _ := TaintAnalysis.passOn_relates F origins _ _
  convert _ _ := TaintAnalysis.passOn_relates F origins _ _
  invoke _ _ h := TaintAnalysis.invoke_relates F hits origins rules ctx h

end Analysis

end Dataflow
