import Dataflow.Proofs.Operation.Subtree
import Dataflow.Proofs.Visit.Ensures

/-!
# Visits step by step

A visit of an operation visits the operands one after the other and then does what the operation
itself does. The definition interleaves the two, each kind of operation in its own way. Here they
are separated: all that an operation needs from an operand is its value and the entity that is noted
for it, both at the time when the operand has just been visited (`Seen`).

## What is proved

A visit sees all operands, then takes the operation's own step, and notes the value (`visit_eq`). So
what is to be shown of visits of trees of any shape and depth has to be shown of own steps only
(`visit_ensures`): they may rely on what is known of the visits of the operands (`Trail`).
-/

namespace Dataflow

/-- What is on the right of a relation between lists is related to something on the left. -/
theorem exists_of_mem_right {α β : Type} {P : α → β → Prop} {as : List α} {bs : List β} (h : List.Forall₂ P as bs)
    {b : β} (hb : b ∈ bs) : ∃ a ∈ as, P a b := by
  induction h with
  | nil => cases hb
  | @cons a c as bs hac _ ih =>
    rcases List.mem_cons.1 hb with rfl | hb
    · exact ⟨a, List.mem_cons_self, hac⟩
    · obtain ⟨a', ha', hab⟩ := ih hb
      exact ⟨a', List.mem_cons_of_mem _ ha', hab⟩

/-- What an operation sees of an operand that was just visited. -/
structure Seen (V : Type) where
  /-- The value. -/
  value : V
  /-- The entity that is noted for it. -/
  entity : Option Entity

namespace Analysis

variable {V : Type} (A : Analysis V) (ctx : Context V)

/-! ### What becomes of operands -/

/-- The position that an operand names, from the entity that is noted for it. -/
def positionOf (op : Operation) (e : Option Entity) : ElementIndex :=
  match op.literal? with
  | some (.integer i) => .constant i
  | _ =>
    match e with
    | some e => .entity e
    | none => .operation op.id

/-- What the caller sees of an operand. -/
def operandOf (op : Operation) (parameter : Option Symbol) (refKind : RefKind) (s : Seen V) : Operand V :=
  ⟨op.id, parameter, refKind, if op.isReference || op.isCapture then s.entity else none,
    A.location ctx op s.value, s.value⟩

/-- What the caller sees of an argument. -/
def argumentOf (a : Argument Operation) (s : Seen V) : Operand V :=
  A.operandOf ctx a.value a.parameter a.refKind s

/-- A call, from what is seen of the receiver and the arguments. -/
def callOf (op : Operation) (method : Symbol) (receiver : Option Operation) (arguments : List (Argument Operation))
    (seen : List (Seen V)) : Call V where
  operation := op
  method := method
  receiver := (List.zipWith (fun r s => A.operandOf ctx r none .value s) receiver.toList seen).head?
  arguments := List.zipWith (A.argumentOf ctx) arguments (seen.drop receiver.toList.length)

variable (usual : Call V → Visit V V)

/-- What an operation does before its operands are visited. -/
def enter (op : Operation) : Visit V Unit :=
  match op with
  | .invocation .. => Visit.checkCancelled
  | _ => pure ()

/-- Lets a temporary stand for the storage that was seen. -/
def link (op : Operation) (capture : CaptureId) (s : Seen V) : Visit V V := do
  match s.entity with
  | some e =>
    Visit.recordEntity op.id (some e)
    Visit.bindCapture capture e
  | none => pure ()
  return A.captureLocation op s.value

/-- What an operation does after its operands were visited. An operation with fewer operands than it has
does not occur. -/
def own (op : Operation) (seen : List (Seen V)) : Visit V V :=
  match op, seen with
  | .literal _ l, _ => pure (A.literal op l)
  | .localRef .., _ | .parameterRef .., _ | .receiverRef _, _ | .captureRef .., _ =>
    Visit.resolve op none [] >>= A.reference ctx op
  | .fieldRef _ owner _, _ =>
    Visit.resolve op (List.zipWith (fun o s => A.location ctx o s.value) owner.toList seen).head? [] >>=
      A.reference ctx op
  | .elementRef _ array indices, a :: seen =>
    Visit.resolve op (some (A.location ctx array a.value)) (List.zipWith positionOf indices (seen.map (·.entity))) >>=
      A.reference ctx op
  | .assignment .., [target, value] => A.assign ctx op target.entity value.value
  | .objectCreation _ arguments, _ =>
    A.create ctx op ((List.zipWith (A.argumentOf ctx) arguments seen).map (·.value))
  | .arrayCreation .., _ => A.createArray ctx op
  | .invocation _ method receiver arguments, _ => do
    Visit.modifyHits (·.withdraw op.id)
    A.invoke ctx usual (A.callOf ctx op method receiver arguments seen)
  | .binary _ operator .., [l, r] => A.binary ctx op operator l.value r.value
  | .conversion .., [v] => A.convert op v.value
  | .capture _ capture _ true, [v] => A.link op capture v
  | .capture _ _ _ false, [v] => do
    let e ← Visit.resolve op none []
    A.assign ctx op e v.value
  | .ret .., [v] => do
    Visit.recordReturn op.id v.value
    return v.value
  | .invalid _, _ => pure (A.unknownValue op)
  | _, _ => pure A.domain.bottom

/-! ### A visit in steps -/

/-- Visits an operand and sees what it is. -/
def see (op : Operation) : Visit V (Seen V) := do
  let v ← A.visit ctx usual op
  return ⟨v, ← Visit.entityOf op.id⟩

/-- Visits operands one after the other. -/
def seeAll : List Operation → Visit V (List (Seen V))
  | [] => return []
  | op :: ops => do
    let s ← A.see ctx usual op
    return s :: (← seeAll ops)

variable {A ctx usual}

/-- An entity is looked up without an effect. -/
theorem entityOf_bind_const {α : Type} (op : OperationId) (x : Visit V α) : (Visit.entityOf op >>= fun _ => x) = x :=
  rfl

theorem elementIndex_eq (op : Operation) :
    elementIndex op = (do return positionOf op (← Visit.entityOf op.id) : Visit V ElementIndex) := by
  unfold elementIndex positionOf
  have other : (do match ← Visit.entityOf op.id with
      | some e => return .entity e
      | none => return .operation op.id : Visit V ElementIndex) =
        (do return (match ← Visit.entityOf op.id with
          | some e => ElementIndex.entity e
          | none => .operation op.id)) :=
    bind_congr fun e => by cases e <;> rfl
  cases op.literal? with
  | none => exact other
  | some l =>
    cases l with
    | integer i => rfl
    | _ => exact other

theorem operand_eq (op : Operation) (parameter : Option Symbol) (refKind : RefKind) (v : V) :
    A.operand ctx op parameter refKind v =
      (do return A.operandOf ctx op parameter refKind ⟨v, ← Visit.entityOf op.id⟩ : Visit V (Operand V)) := by
  unfold operand operandOf
  cases op.isReference || op.isCapture
  · rfl
  · rfl

/-! ### Operands -/

theorem visitPositions_eq (ops : List Operation) :
    A.visitPositions ctx usual ops =
      (do return List.zipWith positionOf ops ((← A.seeAll ctx usual ops).map (·.entity))) := by
  induction ops with
  | nil => simp [visitPositions, seeAll]
  | cons op ops ih => simp [visitPositions, seeAll, see, ih, elementIndex_eq op]

theorem visitArguments_eq (args : List (Argument Operation)) :
    A.visitArguments ctx usual args =
      (do return List.zipWith (A.argumentOf ctx) args (← A.seeAll ctx usual (args.map (·.value)))) := by
  induction args with
  | nil => simp [visitArguments, seeAll]
  | cons a args ih =>
    obtain ⟨parameter, op, refKind⟩ := a
    simp [visitArguments, seeAll, see, ih, operand_eq, argumentOf]

theorem visitReceiver_eq (receiver : Option Operation) :
    A.visitReceiver ctx usual receiver =
      (do return (List.zipWith (fun r s => A.operandOf ctx r none .value s) receiver.toList
        (← A.seeAll ctx usual receiver.toList)).head?) := by
  cases receiver with
  | none => simp [visitReceiver, seeAll]
  | some op => simp [visitReceiver, seeAll, see, operand_eq]

theorem visitOwner_eq (owner : Option Operation) :
    A.visitOwner ctx usual owner =
      (do return (List.zipWith (fun o s => A.location ctx o s.value) owner.toList
        (← A.seeAll ctx usual owner.toList)).head?) := by
  cases owner with
  | none => simp [visitOwner, seeAll]
  | some op =>
    simp only [visitOwner, Option.toList, seeAll, see, bind_assoc, pure_bind, List.zipWith_cons_cons, List.head?_cons,
      entityOf_bind_const]

theorem captureLocationOf_eq (op : Operation) (capture : CaptureId) (target : Operation) (v : V) :
    A.captureLocationOf op capture target v = (do A.link op capture ⟨v, ← Visit.entityOf target.id⟩) :=
  bind_congr fun e => by cases e <;> rfl

/-! ### Operations -/

section Constructors

attribute [local simp] visit enter own Operation.operands seeAll see entityOf_bind_const visitPositions_eq
  visitArguments_eq visitReceiver_eq visitOwner_eq visitResult captureLocationOf_eq callOf

/-- A visit sees the operands in the order of evaluation; then the operation does what it does itself. -/
theorem visit_eq (op : Operation) :
    A.visit ctx usual op = (do
      enter op
      let seen ← A.seeAll ctx usual op.operands
      let v ← A.own ctx usual op seen
      Visit.recordValue op.id v
      return v) := by
  cases op with
  | literal i l => simp
  | localRef i x => simp
  | parameterRef i x => simp
  | receiverRef i => simp
  | captureRef i c => simp
  | invalid i => simp
  | fieldRef i owner field => cases owner <;> simp
  | elementRef i array indices => simp
  | assignment i target value => simp
  | objectCreation i args => simp
  | arrayCreation i dims => simp
  | invocation i method receiver args => cases receiver <;> simp
  | binary i operator left right => simp
  | conversion i operand => simp
  | capture i c value byLocation => cases byLocation <;> simp
  | ret i value => cases value <;> simp

end Constructors

/-! ### Induction over operands -/

/-- How operands were visited, one after the other: `T` is what holds of the visit of an operand, by the machine
before it, the value, and the machine after it. -/
inductive Trail (T : Operation → Machine V → V → Machine V → Prop) :
    List Operation → Machine V → List (Seen V) → Machine V → Prop
  /-- No operand is visited. -/
  | nil (m : Machine V) : Trail T [] m [] m
  /-- An operand is visited, and then the others. -/
  | cons {op : Operation} {ops : List Operation} {m m₁ m₂ : Machine V} {v : V} {seen : List (Seen V)}
      (first : T op m v m₁) (others : Trail T ops m₁ seen m₂) :
      Trail T (op :: ops) m (⟨v, m₁.notes.entities.find? op.id⟩ :: seen) m₂

/-- What each visit keeps is kept by all of them. -/
theorem Trail.keeps {T : Operation → Machine V → V → Machine V → Prop} {P : Machine V → Prop}
    (h : ∀ op m v m', T op m v m' → P m → P m') {ops : List Operation} {m m' : Machine V} {seen : List (Seen V)}
    (trail : Trail T ops m seen m') (hm : P m) : P m' := by
  induction trail with
  | nil => exact hm
  | cons first _ ih => exact ih (h _ _ _ _ first hm)

/-- Visits of operands leave a trail. -/
theorem seeAll_ensures {T : Operation → Machine V → V → Machine V → Prop} {ops : List Operation}
    (spec : ∀ op ∈ ops, ∀ m, Visit.Ensures (A.visit ctx usual op) m (T op m)) (m : Machine V) :
    Visit.Ensures (A.seeAll ctx usual ops) m (Trail T ops m) := by
  induction ops generalizing m with
  | nil =>
    rw [seeAll, Visit.ensures_pure]
    exact .nil m
  | cons op ops ih =>
    simp only [seeAll, see, Visit.ensures_bind, Visit.ensures_entityOf, Visit.ensures_pure]
    refine (spec op List.mem_cons_self m).mono fun v m₁ first => ?_
    refine (ih (fun o ho => spec o (List.mem_cons_of_mem _ ho)) m₁).mono fun seen m₂ others => ?_
    exact .cons first others

/-- Nothing is changed before the operands are visited. -/
theorem ensures_enter {op : Operation} {m : Machine V} {Q : Unit → Machine V → Prop} (h : Q () m) :
    Visit.Ensures (enter op) m Q := by
  unfold enter
  split
  · exact (Visit.ensures_checkCancelled _ _).2 fun _ => h
  · exact (Visit.ensures_pure _ _ _).2 h

/-- If an operation's own step establishes something of its visit whenever the visits of its operands have
established it, it holds of all visits. -/
theorem visit_ensures {T : Operation → Machine V → V → Machine V → Prop}
    (step : ∀ op m seen m₁, Trail T op.operands m seen m₁ → Visit.Ensures (A.own ctx usual op seen) m₁ fun v m₂ =>
      T op m v { m₂ with notes := { m₂.notes with values := m₂.notes.values.insert op.id v } })
    (op : Operation) (m : Machine V) : Visit.Ensures (A.visit ctx usual op) m (T op m) := by
  induction op using Operation.operandInduction generalizing m with
  | h op ih =>
    simp only [visit_eq, Visit.ensures_bind, Visit.ensures_recordValue, Visit.ensures_pure]
    refine ensures_enter ((seeAll_ensures ih m).mono fun seen m₁ trail => ?_)
    exact step op m seen m₁ trail

end Analysis

end Dataflow
