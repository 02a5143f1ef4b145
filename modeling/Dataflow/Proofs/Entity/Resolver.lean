import Dataflow.Proofs.Operation.Subtree
import Dataflow.Proofs.Visit.Ensures

/-!
# Faithful resolvers

A resolver remembers the names it has given to everything but temporaries. Such a name depends on the method, on what
is tracked, and on where the object is and what the indices are, so to look it up is as good as to make it anew.

## What is proved

A resolver that remembers what it would answer anew goes on to do so (`Resolver.Remembers.resolve`). With it: what a
faithful resolver answers (`Resolver.Faithful.resolve`), and that it has no name for a part of an object that is not known
unless such objects are tracked (`Resolver.entity?_eq_none`).
-/

namespace Dataflow

variable {V : Type}

/-- A field that is not static, or an element. -/
def Operation.isInstanceMember : Operation → Bool
  | .fieldRef _ _ field => !field.isStatic
  | .elementRef .. => true
  | _ => false

namespace Resolver

/-- What names a resolver gives to anything but temporaries depends on the method and on what is tracked. -/
theorem entity?_congr (r r' : Resolver) (method : r'.method = r.method) (tracks : r'.tracksUnknown = r.tracksUnknown)
    {op : Operation} (hv : isVolatile op = false) (owner : Option PointsTo) (indices : List ElementIndex) :
    r'.entity? op owner indices = r.entity? op owner indices := by
  have howner : r'.owner? owner = r.owner? owner := by
    unfold owner?
    rw [tracks]
  cases op with
  | capture | captureRef => cases hv
  | localRef i x | parameterRef i x => exact congrArg some (congrArg (Entity.localVar x) method)
  | receiverRef i => exact congrArg some (congrArg Entity.receiver method)
  | _ =>
    unfold entity?
    first
    | rfl
    | rw [howner]

/-- To some operations the resolver answers from memory only what it would answer anew. -/
def Remembers (r : Resolver) (ops : List Operation) : Prop :=
  ∀ op ∈ ops, isVolatile op = false → ∀ owner indices a,
    r.answers.lookup ⟨op.id, owner, indices⟩ = some a → a = r.entity? op owner indices

theorem remembers_start (method : Symbol) (tracks : Bool) (ops : List Operation) : (start method tracks).Remembers ops :=
  fun _ _ _ _ _ _ h => by cases h

theorem Remembers.bind {r : Resolver} {ops : List Operation} (h : r.Remembers ops) (capture : CaptureId)
    (target : Entity) : (r.bind capture target).Remembers ops := fun op hop hv owner indices a ha =>
  (h op hop hv owner indices a ha).trans (entity?_congr (r.bind capture target) r rfl rfl hv owner indices)

/-- What is answered from memory would be answered anew, if the identifier of the operation stands for no other one. -/
theorem Remembers.resolve {r : Resolver} {ops : List Operation} {op : Operation} (h : r.Remembers ops) (hop : op ∈ ops)
    (unique : ∀ o ∈ ops, o.id = op.id → o = op) (owner : Option PointsTo) (indices : List ElementIndex) :
    (r.resolve op owner indices).1 = r.entity? op owner indices ∧ (r.resolve op owner indices).2.Remembers ops := by
  unfold Resolver.resolve
  by_cases hv : isVolatile op = true
  · rw [if_pos hv]
    exact ⟨rfl, h⟩
  · rw [if_neg hv]
    dsimp only
    cases hl : r.answers.lookup ⟨op.id, owner, indices⟩ with
    | some a => exact ⟨h op hop (by simpa using hv) owner indices a hl, h⟩
    | none =>
      refine ⟨rfl, fun o ho hvo owner' indices' a ha => ?_⟩
      refine Eq.trans ?_ (entity?_congr _ r rfl rfl hvo owner' indices')
      rw [List.lookup_cons] at ha
      split at ha
      · rename_i heq
        obtain ⟨hid, rfl, rfl⟩ := ResolverKey.mk.inj (eq_of_beq heq)
        obtain rfl := unique o ho hid
        exact (Option.some.inj ha).symm
      · exact h o ho hvo owner' indices' a ha

/-- The resolver tracks what is configured, and remembers only what it would answer anew to operations of the body. -/
structure Faithful (ctx : Context V) (r : Resolver) : Prop where
  /-- Unknown objects have names or not, as configured. -/
  tracksUnknown : r.tracksUnknown = ctx.tracksUnknown
  /-- What is remembered. -/
  answers : ∀ op ∈ Operation.subtrees ctx.graph.operations, isVolatile op = false → ∀ owner indices a,
    r.answers.lookup ⟨op.id, owner, indices⟩ = some a → a = r.entity? op owner indices

variable {ctx : Context V} {r : Resolver} {op : Operation}

/-- A resolver that remembers nothing is faithful. -/
theorem faithful_start (ctx : Context V) : (start ctx.owner ctx.tracksUnknown).Faithful ctx :=
  ⟨rfl, remembers_start _ _ _⟩

theorem Faithful.bind (h : r.Faithful ctx) (capture : CaptureId) (target : Entity) :
    (r.bind capture target).Faithful ctx :=
  ⟨h.tracksUnknown, Remembers.bind h.answers capture target⟩

/-- All that may change when an operation is resolved is what is remembered. -/
theorem exists_answers_resolve (r : Resolver) (op : Operation) (owner : Option PointsTo) (indices : List ElementIndex) :
    ∃ answers, (r.resolve op owner indices).2 = { r with answers := answers } := by
  unfold Resolver.resolve
  split
  · exact ⟨r.answers, rfl⟩
  · dsimp only
    split
    · exact ⟨r.answers, rfl⟩
    · exact ⟨_, rfl⟩

/-- A resolver names storage of one method. -/
theorem resolve_method (r : Resolver) (op : Operation) (owner : Option PointsTo) (indices : List ElementIndex) :
    (r.resolve op owner indices).2.method = r.method := by
  obtain ⟨answers, h⟩ := exists_answers_resolve r op owner indices
  rw [h]

/-- What temporaries stand for does not change when an operation is resolved. -/
theorem resolve_bindings (r : Resolver) (op : Operation) (owner : Option PointsTo) (indices : List ElementIndex) :
    (r.resolve op owner indices).2.bindings = r.bindings := by
  obtain ⟨answers, h⟩ := exists_answers_resolve r op owner indices
  rw [h]

/-- What is tracked does not change when an operation is resolved. -/
theorem resolve_tracksUnknown (r : Resolver) (op : Operation) (owner : Option PointsTo) (indices : List ElementIndex) :
    (r.resolve op owner indices).2.tracksUnknown = r.tracksUnknown := by
  obtain ⟨answers, h⟩ := exists_answers_resolve r op owner indices
  rw [h]

/-- A faithful resolver gives the name that it would give anew, and stays faithful. -/
theorem Faithful.resolve (h : r.Faithful ctx) (distinct : ctx.graph.DistinctIds)
    (hop : op ∈ Operation.subtrees ctx.graph.operations) (owner : Option PointsTo) (indices : List ElementIndex) :
    (r.resolve op owner indices).1 = r.entity? op owner indices ∧ (r.resolve op owner indices).2.Faithful ctx := by
  have unique : ∀ o ∈ Operation.subtrees ctx.graph.operations, o.id = op.id → o = op :=
    fun o ho hid => distinct.id_inj ho hop hid
  obtain ⟨answer, remembers⟩ := Remembers.resolve h.answers hop unique owner indices
  exact ⟨answer, (resolve_tracksUnknown r op owner indices).trans h.tracksUnknown, remembers⟩

/-- There is no name for an element, or a field that is not static, of an object that is not known. -/
theorem entity?_eq_none (untracked : r.tracksUnknown = false) {owner : Option PointsTo} (indices : List ElementIndex)
    (unknown : (owner.getD .unknown).isKnown = false) (member : op.isInstanceMember = true) :
    r.entity? op owner indices = none := by
  have nameless : r.owner? owner = none := by simp [owner?, unknown, untracked]
  cases op with
  | fieldRef i o field => simp_all [entity?, Operation.isInstanceMember]
  | elementRef i array is => simp [entity?, nameless]
  | _ => cases member

end Resolver

/-- What is left of names when an operation is resolved. -/
theorem Visit.ensures_resolve (op : Operation) (owner : Option PointsTo) (indices : List ElementIndex) (m : Machine V)
    (Q : Option Entity → Machine V → Prop) : Ensures (resolve op owner indices) m Q ↔
      Q (m.notes.resolver.resolve op owner indices).1 { m with notes := { m.notes with
        resolver := (m.notes.resolver.resolve op owner indices).2
        entities := (m.notes.resolver.resolve op owner indices).1.elim (m.notes.entities.erase op.id)
          (m.notes.entities.insert op.id) } } := by
  simp only [resolve, recordEntity, ensures_bind, ensures_notes, ensures_modifyNotes, ensures_pure]
  cases (m.notes.resolver.resolve op owner indices).1 <;> rfl

end Dataflow
