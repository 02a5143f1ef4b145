import Dataflow.Proofs.Accord.Basic
import Dataflow.Proofs.Visit.Steps

/-!
# Visits in accord

An analysis and a second one that differs from it in what it does with entities (`Analysis.over`) visit
every operation alike if their hooks agree. Taken for one analysis only, this says that its visits
keep what its hooks keep.

## What is proved

The hooks owe agreement on each kind of operation (`Accord.Hooks`). From this the visits of trees of
any shape and depth agree, by induction over operands (`visit_agrees`), and so do the statements of a
block (`runBlock_agrees`).
-/

namespace Dataflow

variable {V : Type}

/-- The analysis with what another one does with entities. -/
def Analysis.over (A B : Analysis V) : Analysis V :=
  { A with write := B.write, reference := B.reference, assign := B.assign }

namespace Accord

variable (G : Accord V)

/-- A call whose operands have values as the accord says. -/
def Takes (call : Call V) : Prop := ∀ a ∈ call.operands, G.value a.value

/-- Two ways to handle calls agree. -/
def Handles (usual usual' : Call V → Visit V V) : Prop :=
  ∀ call, G.Takes call → G.Agree (usual call) (usual' call) G.value

/-- What the hooks of an analysis owe, and those of another one that stand in for them. -/
structure Hooks (A B : Analysis V) (ctx : Context V) : Prop where
  /-- The least value. -/
  bottom : G.value A.domain.bottom
  /-- The value of an operation that nothing is known about. -/
  unknown : ∀ op, G.value (A.unknownValue op)
  /-- Constants. -/
  literal : ∀ op l, G.value (A.literal op l)
  /-- Captured locations. -/
  captured : ∀ op v, G.value v → G.value (A.captureLocation op v)
  /-- Reads. -/
  reference : ∀ op e, G.Agree (A.reference ctx op e) (B.reference ctx op e) G.value
  /-- Stores. -/
  assign : ∀ op e v, G.value v → G.Agree (A.assign ctx op e v) (B.assign ctx op e v) G.value
  /-- New objects. -/
  create : ∀ op vs, (∀ v ∈ vs, G.value v) → G.Agree (A.create ctx op vs) (A.create ctx op vs) G.value
  /-- New arrays. -/
  createArray : ∀ op, G.Agree (A.createArray ctx op) (A.createArray ctx op) G.value
  /-- Operators. -/
  binary : ∀ op operator l r, G.value l → G.value r →
    G.Agree (A.binary ctx op operator l r) (A.binary ctx op operator l r) G.value
  /-- Conversions. -/
  convert : ∀ op v, G.value v → G.Agree (A.convert op v) (A.convert op v) G.value
  /-- Calls, from the usual way to handle them. -/
  invoke : ∀ usual usual', G.Handles usual usual' →
    ∀ call, G.Takes call → G.Agree (A.invoke ctx usual call) (A.invoke ctx usual' call) G.value
  /-- The ends of scopes. -/
  forget : ∀ e s, G.state s → G.Steps (A.forget e s) (A.forget e s)
  /-- Work may be cancelled. -/
  cancelled : ∀ ledger, G.ledger ledger → G.failure .cancelled ledger

variable {G} {A B : Analysis V} {ctx : Context V} {usual usual' : Call V → Visit V V}

/-- What agrees with another analysis agrees with itself. -/
theorem Hooks.self (H : G.Hooks A B ctx) : G.Hooks A A ctx :=
  { H with
    reference := fun op e => (H.reference op e).self
    assign := fun op e v hv => (H.assign op e v hv).self }

/-- The operands of a call have values that were seen. -/
theorem takes_callOf {op : Operation} {method : Symbol} {receiver : Option Operation}
    {arguments : List (Argument Operation)} {seen : List (Seen V)} (h : ∀ s ∈ seen, G.value s.value) :
    G.Takes (A.callOf ctx op method receiver arguments seen) := by
  intro a ha
  rcases List.mem_append.1 ha with ha | ha
  · cases receiver with
    | none => cases ha
    | some r =>
      cases seen with
      | nil => cases ha
      | cons s seen =>
        obtain rfl := List.mem_singleton.1 ha
        exact h s List.mem_cons_self
  · obtain ⟨i, hi, rfl⟩ := List.getElem_of_mem ha
    simp only [Analysis.callOf, List.getElem_zipWith]
    exact h _ (List.mem_of_mem_drop (List.getElem_mem _))

theorem own_agrees (H : G.Hooks A B ctx) (usuals : G.Handles usual usual') (op : Operation) {seen : List (Seen V)}
    (h : ∀ s ∈ seen, G.value s.value) :
    G.Agree (A.own ctx usual op seen) ((A.over B).own ctx usual' op seen) G.value := by
  have read : ∀ owner indices, G.Agree (Visit.resolve op owner indices >>= A.reference ctx op)
      (Visit.resolve op owner indices >>= (A.over B).reference ctx op) G.value := fun owner indices =>
    (agree_resolve op owner indices).bind fun e _ => H.reference op e
  have bottom : G.Agree (pure A.domain.bottom) (pure A.domain.bottom) G.value := agree_pure H.bottom
  cases op with
  | literal i l => exact agree_pure (H.literal _ l)
  | localRef i x => exact read none []
  | parameterRef i x => exact read none []
  | receiverRef i => exact read none []
  | captureRef i c => exact read none []
  | fieldRef i owner field => exact read _ []
  | elementRef i array indices =>
    match seen with
    | [] => exact bottom
    | _ :: _ => exact read _ _
  | assignment i target value =>
    match seen with
    | [] | [_] | _ :: _ :: _ :: _ => exact bottom
    | [_, v] => exact H.assign _ _ _ (h v (by simp))
  | objectCreation i args =>
    refine H.create _ _ fun v hv => ?_
    obtain ⟨a, ha, rfl⟩ := List.mem_map.1 hv
    obtain ⟨i, hi, rfl⟩ := List.getElem_of_mem ha
    rw [List.getElem_zipWith]
    exact h _ (List.getElem_mem _)
  | arrayCreation i dims => exact H.createArray _
  | invocation i method receiver args =>
    exact (agree_modifyHits _).bind fun _ _ => H.invoke usual usual' usuals _ (takes_callOf h)
  | binary i operator left right =>
    match seen with
    | [] | [_] | _ :: _ :: _ :: _ => exact bottom
    | [l, r] => exact H.binary _ _ _ _ (h l (by simp)) (h r (by simp))
  | conversion i operand =>
    match seen with
    | [] | _ :: _ :: _ => exact bottom
    | [v] => exact H.convert _ _ (h v (by simp))
  | capture i c value byLocation =>
    match byLocation, seen with
    | true, [] | false, [] | true, _ :: _ :: _ | false, _ :: _ :: _ => exact bottom
    | false, [v] => exact (agree_resolve _ _ _).bind fun e _ => H.assign _ e _ (h v (by simp))
    | true, [v] =>
      have captured : G.Agree (pure (A.captureLocation (.capture i c value true) v.value))
          (pure (A.captureLocation (.capture i c value true) v.value)) G.value :=
        agree_pure (H.captured _ _ (h v (by simp)))
      obtain ⟨v, _ | e⟩ := v
      · exact captured
      · exact (agree_recordEntity _ _).bind fun _ _ => (agree_bindCapture _ _).bind fun _ _ => captured
  | ret i value =>
    match seen with
    | [] | _ :: _ :: _ => exact bottom
    | [v] => exact (agree_recordReturn _ (h v (by simp))).bind fun _ _ => agree_pure (h v (by simp))
  | invalid i => exact agree_pure (H.unknown _)

/-- Operands are seen alike. -/
theorem seeAll_agrees {ops : List Operation}
    (spec : ∀ op ∈ ops, G.Agree (A.visit ctx usual op) ((A.over B).visit ctx usual' op) G.value) :
    G.Agree (A.seeAll ctx usual ops) ((A.over B).seeAll ctx usual' ops) fun seen => ∀ s ∈ seen, G.value s.value := by
  induction ops with
  | nil => exact agree_pure fun s hs => by cases hs
  | cons op ops ih =>
    have first : G.Agree (A.see ctx usual op) ((A.over B).see ctx usual' op) fun s => G.value s.value :=
      (spec op List.mem_cons_self).bind fun v hv => (agree_entityOf op.id).bind fun e _ => agree_pure hv
    refine first.bind fun s hs => (ih fun o ho => spec o (List.mem_cons_of_mem _ ho)).bind fun seen hseen => ?_
    refine agree_pure fun t ht => ?_
    rcases List.mem_cons.1 ht with rfl | ht
    · exact hs
    · exact hseen t ht

/-- Visits of all operations agree: by induction over operands. -/
theorem visit_agrees (H : G.Hooks A B ctx) (usuals : G.Handles usual usual') (op : Operation) :
    G.Agree (A.visit ctx usual op) ((A.over B).visit ctx usual' op) G.value := by
  induction op using Operation.operandInduction with
  | h op ih =>
    have entered : G.Agree (Analysis.enter op) (Analysis.enter op) fun _ => True := by
      unfold Analysis.enter
      split
      · exact agree_checkCancelled H.cancelled
      · exact agree_pure trivial
    rw [Analysis.visit_eq, Analysis.visit_eq]
    refine entered.bind fun _ _ => (seeAll_agrees ih).bind fun seen hseen => ?_
    exact (own_agrees H usuals op hseen).bind fun v hv => (agree_recordValue op.id v).bind fun _ _ => agree_pure hv

/-! ### Blocks -/

/-- The state before an operation is noted, and the operation is visited. -/
theorem statement_agrees (H : G.Hooks A B ctx) (usuals : G.Handles usual usual') (op : Operation) :
    G.Agree (do Visit.recordBefore op.id; let _ ← A.visit ctx usual op)
      (do Visit.recordBefore op.id; let _ ← (A.over B).visit ctx usual' op) fun _ => True :=
  (agree_recordBefore op.id).bind fun _ _ => (visit_agrees H usuals op).bind fun _ _ => agree_pure trivial

theorem leaveScope_agrees (H : G.Hooks A B ctx) (locals : List Symbol) :
    G.Agree (A.leaveScope locals) ((A.over B).leaveScope locals) fun _ => True := by
  refine agree_forM fun x _ => agree_notes_bind fun n => ?_
  exact agree_update fun s hs => H.forget _ s hs

/-- Visits of blocks in a state agree. -/
theorem runBlock_agrees (H : G.Hooks A B ctx) (usuals : G.Handles usual usual') (b : Block) {s : State V} (hs : G.state s) :
    G.Agree (A.runBlock ctx usual b s) ((A.over B).runBlock ctx usual' b s) G.state := by
  refine (agree_setState hs).bind fun _ _ => ?_
  refine (agree_forM fun op _ => statement_agrees H usuals op).bind fun _ _ => ?_
  refine (leaveScope_agrees H b.leavingScope).bind fun _ _ => ?_
  exact fun m hm => ⟨rfl, hm, hm.state⟩

end Accord

end Dataflow
