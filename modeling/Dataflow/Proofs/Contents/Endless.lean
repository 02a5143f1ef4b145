import Dataflow.Analysis.Contents
import Dataflow.Proofs.Settling.Endless

/-!
# Loops that name ever more elements

The position of an element may be the value of storage, and this storage may be an element again. Two
bodies use that to name ever more elements. In the first one, `Rebinding`, a temporary stands for the element that
was named last, and the next one is named by way of it. In the second one, `SharedId`, two operations have the
same identifier, so that the entity that is noted for one of them is taken for that of the other.

## What is proved

`Rebinding.names` and `SharedId.names`: the analysis of literal content names one more element in each visit.
-/

namespace Dataflow

open Visit

namespace Endless

/-! ### Elements at positions that elements hold -/

/-- The positions of a sequence of elements, each of which is at the position that the one before holds. -/
def position (i : ElementIndex) : Nat → ElementIndex
  | 0 => i
  | n + 1 => .entity (.element .unknown [position i n] none)

/-- The elements. -/
def slot (i : ElementIndex) (n : Nat) : Entity := .element .unknown [position i n] none

theorem sizeOf_position_lt (i : ElementIndex) (n : Nat) : sizeOf (position i n) < sizeOf (position i (n + 1)) := by
  simp only [position, ElementIndex.entity.sizeOf_spec, Entity.element.sizeOf_spec, List.cons.sizeOf_spec]
  omega

theorem slot_injective (i : ElementIndex) : (slot i).Injective := by
  intro m n h
  have h : position i m = position i n := by simpa [slot] using h
  exact (strictMono_nat_of_lt_succ (sizeOf_position_lt i)).injective (congrArg sizeOf h)

/-- Elements of unknown arrays have names, and those that were named by an operation are remembered so. -/
structure Remembers (i : OperationInfo) (r : Resolver) : Prop where
  /-- They have names. -/
  tracksUnknown : r.tracksUnknown = true
  /-- The names that are remembered. -/
  answers : ∀ is e, r.answers.lookup ⟨i.id, some .unknown, is⟩ = some e → e = some (.element .unknown is i.type)

theorem resolve_bindings (r : Resolver) (op : Operation) (owner : Option PointsTo) (is : List ElementIndex) :
    (r.resolve op owner is).2.bindings = r.bindings ∧ (r.resolve op owner is).2.method = r.method := by
  unfold Resolver.resolve
  split
  · exact ⟨rfl, rfl⟩
  · dsimp only
    split <;> exact ⟨rfl, rfl⟩

/-- Resolving a variable or a temporary does not touch the names of elements. -/
theorem Remembers.resolve_variable {i : OperationInfo} {r : Resolver} (h : Remembers i r) (op : Operation) :
    Remembers i (r.resolve op none []).2 := by
  unfold Resolver.resolve
  split
  · exact h
  · dsimp only
    split
    · exact h
    · refine ⟨h.tracksUnknown, fun is e he => h.answers is e ?_⟩
      rwa [List.lookup_cons, beq_eq_false_iff_ne.2 (by simp)] at he

/-- An element of an unknown array is resolved to its name. -/
theorem Remembers.resolve_element {i : OperationInfo} {r : Resolver} (h : Remembers i r) (array : Operation)
    (indices : List Operation) (is : List ElementIndex) :
    ∃ r', r.resolve (.elementRef i array indices) (some .unknown) is = (some (.element .unknown is i.type), r') ∧
      Remembers i r' := by
  have name : r.entity? (.elementRef i array indices) (some .unknown) is = some (.element .unknown is i.type) := by
    simp [Resolver.entity?, Resolver.owner?, h.tracksUnknown]
  unfold Resolver.resolve
  rw [if_neg (by simp [Resolver.isVolatile]), name]
  cases ha : r.answers.lookup ⟨(Operation.elementRef i array indices).id, some .unknown, is⟩ with
  | some a => exact ⟨r, by simp only [ha, h.answers is a ha], h⟩
  | none =>
    refine ⟨{ r with answers := (⟨i.id, some .unknown, is⟩, some (.element .unknown is i.type)) :: r.answers },
      by simp only [ha]; rfl, h.tracksUnknown, fun is' e he => ?_⟩
    rw [List.lookup_cons] at he
    split at he
    · rename_i heq
      obtain ⟨-, -, rfl⟩ := ResolverKey.mk.inj (eq_of_beq heq)
      exact (Option.some.inj he).symm
    · exact h.answers is' e he

/-! ### Visits -/

section Visits

variable {ctx : Context Content} {usual : Call Content → Visit Content Content} {i : OperationInfo}
variable {m m' m'' : Machine Content}

/-- What a visit that stores nothing leaves as it is. -/
structure Aside (i : OperationInfo) (m m' : Machine Content) : Prop where
  /-- The state. -/
  state : m'.state = m.state
  /-- The ledger. -/
  ledger : m'.ledger = m.ledger
  /-- The names of elements. -/
  remembers : Remembers i m.notes.resolver → Remembers i m'.notes.resolver
  /-- What temporaries stand for. -/
  bindings : m'.notes.resolver.bindings = m.notes.resolver.bindings
  /-- The method. -/
  method : m'.notes.resolver.method = m.notes.resolver.method

theorem Aside.trans (h : Aside i m m') (h' : Aside i m' m'') : Aside i m m'' :=
  ⟨h'.state.trans h.state, h'.ledger.trans h.ledger, h'.remembers ∘ h.remembers, h'.bindings.trans h.bindings,
    h'.method.trans h.method⟩

/-- A reference is read. -/
theorem yields_reference (op : Operation) (e : Option Entity) {Q : Content → Machine Content → Prop}
    (h : ∀ v, Q v m) : Yields (Analysis.contents.reference ctx op e) m Q := by
  cases e with
  | none =>
    show Yields (pure _) m Q
    rw [yields_pure]
    exact h _
  | some e =>
    show Yields (do return State.valueOr Domain.contents (← Visit.state) e) m Q
    rw [yields_bind, yields_state, yields_pure]
    exact h _

/-- A variable or a temporary is named and read. -/
theorem yields_variable {op : Operation} (body : Analysis.contents.visit ctx usual op = do
      let v ← Visit.resolve op none [] >>= Analysis.contents.reference ctx op
      Visit.recordValue op.id v
      return v) :
    Yields (Analysis.contents.visit ctx usual op) m fun _ m' => Aside i m m' ∧
      m'.notes.entities.find? op.id = (m.notes.resolver.resolve op none []).1 ∧
        ∀ j, j ≠ op.id → m'.notes.entities.find? j = m.notes.entities.find? j := by
  rw [body]
  unfold Visit.resolve
  simp only [yields_bind, yields_notes, yields_modifyNotes, yields_pure, recordEntity, yields_recordValue]
  have same := resolve_bindings m.notes.resolver op none []
  refine yields_reference op _ fun v => ⟨⟨rfl, rfl, fun h => h.resolve_variable op, same.1, same.2⟩, ?_, fun j hj => ?_⟩
  · cases (m.notes.resolver.resolve op none []).1 with
    | some e => exact FinMap.find?_insert_self _ _ _
    | none => exact FinMap.find?_erase_self _ _
  · cases (m.notes.resolver.resolve op none []).1 with
    | some e => exact FinMap.find?_insert_ne _ _ hj
    | none => exact FinMap.find?_erase_ne _ hj

/-- An element of a local array whose position is evaluated. -/
theorem yields_element {j : OperationInfo} {x : Symbol} {index : Operation} (position : ElementIndex)
    (hctx : ctx.pointsTo = none) (hi : i.type = none) (hj : j.type = none) (remembers : Remembers i m.notes.resolver)
    (onIndex : ∀ m₁, Aside i m m₁ → (∀ k, k ≠ j.id → m₁.notes.entities.find? k = m.notes.entities.find? k) →
      Yields (Analysis.contents.visit ctx usual index) m₁ fun _ m₂ => Yields (Analysis.elementIndex index) m₂ fun is m₃ =>
        is = position ∧ Aside i m₁ m₃) :
    Yields (Analysis.contents.visit ctx usual (.elementRef i (.localRef j x) [index])) m fun _ m' =>
      Aside i m m' ∧ m'.notes.entities.find? i.id = some (.element .unknown [position] none) := by
  have location : Analysis.contents.location ctx (.localRef j x) = fun _ => PointsTo.unknown := by
    funext v
    show ctx.locationOf _ = _
    simp [Context.locationOf, hctx, Operation.isReferenceType, Operation.type, Operation.info, hj, TypeRef.holdsReference]
  rw [Analysis.visit]
  simp only [Analysis.visitPositions, yields_bind, yields_pure, yields_recordValue, location]
  refine (yields_variable (i := i) (by rw [Analysis.visit]; rfl)).mono fun _ m₁ after => ?_
  obtain ⟨aside₁, -, others⟩ := after
  refine (onIndex m₁ aside₁ others).mono fun _ m₂ h => h.mono fun is m₃ after => ?_
  obtain ⟨his, aside₂⟩ := after
  subst his
  have aside := aside₁.trans aside₂
  obtain ⟨r, hr, hremembers⟩ := (aside.remembers remembers).resolve_element (.localRef j x) [index] [is]
  have same := resolve_bindings m₃.notes.resolver (.elementRef i (.localRef j x) [index]) (some .unknown) [is]
  rw [hr] at same
  unfold Visit.resolve
  simp only [yields_bind, yields_notes, yields_modifyNotes, yields_pure, recordEntity, hr]
  refine yields_reference _ _ fun v => ⟨aside.trans ⟨rfl, rfl, fun _ => hremembers, same.1, same.2⟩, ?_⟩
  rw [hi]
  exact FinMap.find?_insert_self _ _ _

/-- A store makes the state mention its target. -/
theorem yields_assign (hctx : ctx.copies = none) (op : Operation) (e : Entity) (v : Content) {Q : Content → Machine Content → Prop}
    (h : Q v { m with state := State.write Domain.contents e v m.state }) :
    Yields (Analysis.contents.assign ctx op (some e) v) m Q := by
  show Yields (Analysis.ContentAnalysis.assign ctx op (some e) v) m Q
  have copies : Analysis.ContentAnalysis.copiesAfter ctx op e = [] := by
    simp [Analysis.ContentAnalysis.copiesAfter, hctx]
  unfold Analysis.ContentAnalysis.assign
  simp only [copies, List.foldl_nil, yields_bind, yields_state, yields_setState, yields_pure]
  exact h

theorem Fresh.write {i : ElementIndex} {n : Nat} {s : State Content} (h : Fresh (slot i) n s) (v : Content) :
    ((State.write Domain.contents (slot i n) v s).find? (slot i n)).isSome = true ∧
      Fresh (slot i) (n + 1) (State.write Domain.contents (slot i n) v s) := by
  refine ⟨(State.isSome_find?_write _ _ _ _ _).2 (.inr rfl), fun k hk => ?_⟩
  rw [← Bool.not_eq_true, State.isSome_find?_write]
  rintro (hs | he)
  · rw [h k (Nat.le_of_succ_le hk)] at hs
    cases hs
  · have := slot_injective i he
    omega

end Visits

/-! ### A temporary that is bound by way of itself -/

/-- What an operation carries. -/
def info (number : UInt32) : OperationInfo := ⟨⟨number⟩, none, ⟨0, 0⟩⟩

namespace Rebinding

/-- The element at the position that the temporary stands for. -/
def element : Operation :=
  .elementRef (info 2) (.localRef (info 0) (Symbol.localVar "a" none)) [.captureRef (info 1) ⟨0⟩]

/-- Binds the temporary to this element. -/
def binding : Operation := .capture (info 3) ⟨0⟩ element true

/-- Stores into the temporary. -/
def store : Operation := .assignment (info 6) (.captureRef (info 4) ⟨0⟩) (.literal (info 5) (.integer 1))

/-- What is run over and over. -/
def operations : List Operation := [binding, store]

/-- The body, as nobody calls it. -/
def context : Context Content := Context.start (loop operations) Config.usual fun _ => none

/-- The temporary. -/
def temporary : Entity := .temporary ⟨0⟩ context.owner none

/-- What is noted after some visits: what the temporary stands for. -/
structure Stage (n : Nat) (notes : Notes Content) : Prop where
  /-- The names of elements. -/
  remembers : Remembers (info 2) notes.resolver
  /-- The method. -/
  method : notes.resolver.method = context.owner
  /-- The temporary. -/
  bound : ElementIndex.entity (notes.resolver.temporary ⟨0⟩ none) = position (.entity temporary) n

variable {usual : Call Content → Visit Content Content} {n : Nat} {m : Machine Content}

/-- The temporary is bound to the next element. -/
theorem yields_capture (stage : Stage n m.notes) :
    Yields (Analysis.contents.visit context usual binding) m fun _ m' => m'.state = m.state ∧ m'.ledger = m.ledger ∧
      m'.notes.resolver.temporary ⟨0⟩ none = slot (.entity temporary) n ∧ Stage (n + 1) m'.notes := by
  unfold binding
  rw [Analysis.visit]
  simp only [if_true, Analysis.captureLocationOf, yields_bind, yields_entityOf, yields_recordValue, yields_pure]
  refine (yields_element (position (.entity temporary) n) rfl rfl rfl stage.remembers fun m₁ aside₁ others => ?_).mono
    fun v m₂ after => ?_
  · refine (yields_variable (i := info 2) (by rw [Analysis.visit]; rfl)).mono fun _ m₂ after => ?_
    obtain ⟨aside₂, noted, -⟩ := after
    unfold Analysis.elementIndex
    simp only [Operation.literal?, yields_bind, yields_entityOf, noted]
    have : (m₁.notes.resolver.resolve (.captureRef (info 1) ⟨0⟩) none []).1 = some (m.notes.resolver.temporary ⟨0⟩ none) := by
      simp [Resolver.resolve, Resolver.isVolatile, Resolver.entity?, Resolver.temporary, aside₁.bindings, aside₁.method, info]
    simp only [this, yields_pure]
    exact ⟨stage.bound, aside₂⟩
  · obtain ⟨aside, noted⟩ := after
    rw [show element.id = (info 2).id from rfl, noted]
    simp only [recordEntity, bindCapture, yields_bind, yields_modifyNotes, yields_pure]
    have bound : Resolver.temporary (m₂.notes.resolver.bind ⟨0⟩ (slot (.entity temporary) n)) ⟨0⟩ none = slot (.entity temporary) n := by
      simp [Resolver.temporary, Resolver.bind]
    have remembers := aside.remembers stage.remembers
    exact ⟨aside.state, aside.ledger, bound, ⟨remembers.tracksUnknown, remembers.answers⟩, aside.method.trans stage.method,
      congrArg ElementIndex.entity bound⟩

/-- A store into the temporary is one into the element. -/
theorem yields_store (bound : m.notes.resolver.temporary ⟨0⟩ none = slot (.entity temporary) n) :
    Yields (Analysis.contents.visit context usual store) m fun _ m' => m'.ledger = m.ledger ∧
      (Stage (n + 1) m.notes → Stage (n + 1) m'.notes) ∧
        ∃ v, m'.state = State.write Domain.contents (slot (.entity temporary) n) v m.state := by
  unfold store
  rw [Analysis.visit]
  simp only [yields_bind, yields_entityOf, yields_recordValue, yields_pure]
  refine (yields_variable (i := info 2) (by rw [Analysis.visit]; rfl)).mono fun _ m₁ after => ?_
  obtain ⟨aside, noted, -⟩ := after
  rw [noted]
  have name : (m.notes.resolver.resolve (.captureRef (info 4) ⟨0⟩) none []).1 = some (slot (.entity temporary) n) :=
    congrArg some bound
  rw [name, Analysis.visit]
  simp only [yields_bind, yields_recordValue, yields_pure]
  refine yields_assign rfl _ _ _ ⟨aside.ledger, fun stage => ?_, _, by rw [← aside.state]⟩
  refine ⟨aside.remembers stage.remembers, aside.method.trans stage.method, ?_⟩
  rw [← stage.bound]
  simp [Resolver.temporary, aside.bindings, aside.method]

theorem names : Names Analysis.contents context usual operations (slot (.entity temporary)) Stage := by
  refine ⟨rfl, ⟨State.empty, rfl, fun k _ => by simp [State.empty]⟩, ⟨⟨rfl, fun is e he => by cases he⟩, rfl, ?_⟩, ?_⟩
  · simp [Notes.start, Resolver.start, Resolver.temporary, position, temporary]
  · intro n m s running stage fresh
    unfold Analysis.runBlock Analysis.leaveScope
    simp only [head, Block.allOperations, operations, Option.toList_none, List.append_nil, yields_bind, yields_setState,
      yields_forM_cons, yields_forM_nil, yields_recordBefore, yields_pure, yields_state]
    refine (yields_capture (n := n) ?_).mono fun _ m₁ after => ?_
    · exact ⟨stage.remembers, stage.method, stage.bound⟩
    · obtain ⟨hstate, hledger, bound, stage₁⟩ := after
      refine (yields_store (n := n) ?_).mono fun _ m₂ stored => ?_
      · exact bound
      · obtain ⟨hledger₂, keeps, v, hv⟩ := stored
        have written : m₂.state = State.write Domain.contents (slot (.entity temporary) n) v s :=
          hv.trans (congrArg (State.write Domain.contents _ v) hstate)
        exact ⟨hledger₂.trans hledger, keeps ⟨stage₁.remembers, stage₁.method, stage₁.bound⟩, written ▸ fresh.write v⟩

end Rebinding

/-! ### Two operations of one identifier -/

namespace SharedId

/-- The element of an array at a position that is not known, named by an operation of the same identifier. -/
def element : Operation :=
  .elementRef (info 3) (.localRef (info 1) (Symbol.localVar "a" none)) [.invalid (info 3)]

/-- Stores into the element. -/
def store : Operation := .assignment (info 5) element (.literal (info 4) (.integer 1))

/-- What is run over and over. -/
def operations : List Operation := [store]

/-- The body, as nobody calls it. -/
def context : Context Content := Context.start (loop operations) Config.usual fun _ => none

/-- The position that the identifier stands for. -/
def noted (notes : Notes Content) : ElementIndex :=
  match notes.entities.find? ⟨3⟩ with
  | some e => .entity e
  | none => .operation ⟨3⟩

/-- What is noted after some visits: what the identifier stands for. -/
structure Stage (n : Nat) (notes : Notes Content) : Prop where
  /-- The names of elements. -/
  remembers : Remembers (info 3) notes.resolver
  /-- The identifier. -/
  noted : noted notes = position (.operation ⟨3⟩) n

variable {usual : Call Content → Visit Content Content} {n : Nat} {m : Machine Content}

/-- A store is one into the next element. -/
theorem yields_store (stage : Stage n m.notes) :
    Yields (Analysis.contents.visit context usual store) m fun _ m' => m'.ledger = m.ledger ∧ Stage (n + 1) m'.notes ∧
      ∃ v, m'.state = State.write Domain.contents (slot (.operation ⟨3⟩) n) v m.state := by
  unfold store
  rw [Analysis.visit]
  simp only [yields_bind, yields_entityOf, yields_recordValue, yields_pure]
  refine (yields_element (position (.operation ⟨3⟩) n) rfl rfl rfl stage.remembers fun m₁ aside₁ others => ?_).mono
    fun v m₁ after => ?_
  · rw [Analysis.visit]
    unfold Analysis.elementIndex
    simp only [Operation.literal?, yields_bind, yields_pure, yields_recordValue, yields_entityOf]
    have same : m₁.notes.entities.find? (Operation.invalid (info 3)).id = m.notes.entities.find? ⟨3⟩ :=
      others ⟨3⟩ (by decide)
    rw [same]
    have := stage.noted
    unfold noted at this
    split
    all_goals
      rename_i h
      simp only [h] at this
      rw [yields_pure]
      exact ⟨this, rfl, rfl, id, rfl, rfl⟩
  · obtain ⟨aside, hnoted⟩ := after
    rw [show element.id = (info 3).id from rfl, hnoted, Analysis.visit]
    simp only [yields_bind, yields_recordValue, yields_pure]
    refine yields_assign rfl _ _ _ ⟨aside.ledger, ⟨aside.remembers stage.remembers, ?_⟩, _, by rw [← aside.state]; rfl⟩
    unfold noted
    rw [show m₁.notes.entities.find? ⟨3⟩ = _ from hnoted]
    rfl

theorem names : Names Analysis.contents context usual operations (slot (.operation ⟨3⟩)) Stage := by
  refine ⟨rfl, ⟨State.empty, rfl, fun k _ => by simp [State.empty]⟩, ⟨⟨rfl, fun is e he => by cases he⟩, ?_⟩, ?_⟩
  · simp [Notes.start, noted, position]
  · intro n m s running stage fresh
    unfold Analysis.runBlock Analysis.leaveScope
    simp only [head, Block.allOperations, operations, Option.toList_none, List.append_nil, yields_bind, yields_setState,
      yields_forM_cons, yields_forM_nil, yields_recordBefore, yields_pure, yields_state]
    refine (yields_store (n := n) ?_).mono fun _ m₁ after => ?_
    · exact ⟨stage.remembers, stage.noted⟩
    · obtain ⟨hledger, stage₁, v, hv⟩ := after
      exact ⟨hledger, stage₁, hv ▸ fresh.write v⟩

end SharedId
end Endless
end Dataflow
