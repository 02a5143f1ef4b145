import Dataflow.Analysis.Solver
import Dataflow.Proofs.Entity.Resolver
import Dataflow.Proofs.Operation.Subtree
import Dataflow.Proofs.Visit.Yields
import Mathlib.Data.Set.Finite.Lattice
import Mathlib.Data.Set.Finite.Lemmas

/-!
# Names of storage

What a reference stands for depends on the owner and the positions that it is resolved with, on
the resolver's memory of earlier answers, and on the storage whose location a temporary captured. The last
two outlive the visits of a block, and no abstract state mentions them.

## What is proved

If operation identifiers are distinct, the memory does not matter: a reference to anything but a temporary is
resolved to the name that it would be given anew (`Context.nameOf`, `Named.resolve`). `Named` is what the notes
keep for this. What temporaries stand for matters; `Bound` tells what is known of it.
-/

namespace Dataflow

/-! ### Names -/

namespace Operation

/-- Whether the entity that the operation stands for is noted. -/
def namesStorage (op : Operation) : Bool := op.isReference || op.isCapture

/-- The temporary that the operation reads or writes. -/
def temporary? : Operation → Option CaptureId
  | captureRef _ c | capture _ c _ false => some c
  | _ => none

/-- The temporary that the operation makes stand for other storage. -/
def located? : Operation → Option CaptureId
  | capture _ c _ true => some c
  | _ => none

/-- The temporaries that the operation and its operands read or write. -/
def used (op : Operation) : List CaptureId := op.subtree.filterMap temporary?

/-- What the first statement uses is lower than what the second one makes stand for other storage. -/
def Below (rank : CaptureId → Nat) (op op' : Operation) : Prop := ∀ d ∈ op.used, ∀ c ∈ op'.located?, rank d < rank c

instance (rank : CaptureId → Nat) : DecidableRel (Below rank) := fun _ _ => inferInstanceAs (Decidable (∀ _ ∈ _, _))

end Operation

/-- Temporaries can be ranked: where one of them is made to stand for other storage, only lower ones were used
in the block so far. So no temporary comes to stand for storage that is reached by way of itself, or of one that
is reached by way of it in turn. -/
structure Graph.Layered (g : Graph) (rank : CaptureId → Nat) : Prop where
  /-- Locations are captured by statements of their own. -/
  alone : ∀ b ∈ g.blocks, ∀ op ∈ b.allOperations, ∀ o ∈ Operation.subtrees op.operands, o.located? = none
  /-- What a captured location is reached by. -/
  self : ∀ b ∈ g.blocks, ∀ op ∈ b.allOperations, op.Below rank op
  /-- What was used before. -/
  before : ∀ b ∈ g.blocks, b.allOperations.Pairwise (Operation.Below rank)

instance (g : Graph) (rank : CaptureId → Nat) : Decidable (g.Layered rank) :=
  decidable_of_iff ((∀ b ∈ g.blocks, ∀ op ∈ b.allOperations, ∀ o ∈ Operation.subtrees op.operands, o.located? = none) ∧
      (∀ b ∈ g.blocks, ∀ op ∈ b.allOperations, op.Below rank op) ∧
        ∀ b ∈ g.blocks, b.allOperations.Pairwise (Operation.Below rank))
    ⟨fun ⟨alone, self, before⟩ => ⟨alone, self, before⟩, fun h => ⟨h.alone, h.self, h.before⟩⟩

variable {V α : Type}

namespace Context

/-- The name that an operation has if no temporary stands for anything but itself. -/
def nameOf (ctx : Context V) (op : Operation) (owner : Option PointsTo) (indices : List ElementIndex) :
    Option Entity :=
  (Resolver.start ctx.owner ctx.tracksUnknown).entity? op owner indices

/-- The names that an operation has with some owners and positions. -/
def namesAt (ctx : Context V) (op : Operation) (L : Set (Option PointsTo × List ElementIndex)) : Set Entity :=
  {e | ∃ l ∈ L, ctx.nameOf op l.1 l.2 = some e}

theorem namesAt_finite (ctx : Context V) (op : Operation) {L : Set (Option PointsTo × List ElementIndex)}
    (hL : L.Finite) : (ctx.namesAt op L).Finite := by
  refine ((hL.image fun l => ctx.nameOf op l.1 l.2).preimage (Option.some_injective _).injOn).subset ?_
  rintro e ⟨l, hl, he⟩
  exact ⟨l, hl, he⟩

end Context

/-- The notes name storage as the body does, and the work is not cancelled. -/
structure Named (ctx : Context V) (m : Machine V) : Prop where
  /-- The names belong to the body. -/
  method : m.notes.resolver.method = ctx.owner
  /-- Unknown objects have names or not, as configured. -/
  tracksUnknown : m.notes.resolver.tracksUnknown = ctx.tracksUnknown
  /-- A remembered answer is the name. -/
  answers : ∀ op ∈ Operation.subtrees ctx.graph.operations, ∀ owner indices a,
    m.notes.resolver.answers.lookup ⟨op.id, owner, indices⟩ = some a → a = ctx.nameOf op owner indices
  /-- Operations that name no storage have no entity. -/
  noted : ∀ op ∈ Operation.subtrees ctx.graph.operations, op.namesStorage = false →
    m.notes.entities.find? op.id = none
  /-- The work is not cancelled. -/
  running : m.ledger.cancelled = false

/-- What is known of temporaries while a block is visited. Those of `known` stand for storage of `N`; those of `free`
may come to stand for storage of `N`; and all others stand for what they did at the start of the visit. -/
structure Bound (ctx : Context V) (known free : Set CaptureId) (start : FinMap CaptureId Entity) (N : Set Entity)
    (m : Machine V) : Prop extends Named ctx m where
  /-- What temporaries stand for. -/
  bindings : ∀ c e, m.notes.resolver.bindings.find? c = some e → start.find? c = some e ∨ c ∈ free ∧ e ∈ N
  /-- What they stand for at the start. -/
  start : ∀ c ∈ known, ∀ e, start.find? c = some e → e ∈ N

theorem Named.congr {ctx : Context V} {m m' : Machine V} (h : Named ctx m)
    (hr : m'.notes.resolver = m.notes.resolver) (he : m'.notes.entities = m.notes.entities)
    (hl : m'.ledger = m.ledger) : Named ctx m' where
  method := hr ▸ h.method
  tracksUnknown := hr ▸ h.tracksUnknown
  answers := hr ▸ h.answers
  noted := he ▸ h.noted
  running := hl ▸ h.running

/-- The name of anything but a temporary does not depend on what temporaries stand for. -/
theorem Named.entity?_eq {ctx : Context V} {m : Machine V} (h : Named ctx m) {op : Operation}
    (hv : Resolver.isVolatile op = false) (owner : Option PointsTo) (indices : List ElementIndex) :
    m.notes.resolver.entity? op owner indices = ctx.nameOf op owner indices :=
  Resolver.entity?_congr _ _ h.method h.tracksUnknown hv owner indices

namespace Bound

variable {ctx : Context V} {known free : Set CaptureId} {start : FinMap CaptureId Entity} {N N' : Set Entity}
variable {m m' : Machine V}

theorem congr (h : Bound ctx known free start N m) (hr : m'.notes.resolver = m.notes.resolver)
    (he : m'.notes.entities = m.notes.entities) (hl : m'.ledger = m.ledger) : Bound ctx known free start N m' :=
  ⟨h.toNamed.congr hr he hl, hr ▸ h.bindings, h.start⟩

theorem mono (h : Bound ctx known free start N m) (hN : N ⊆ N') : Bound ctx known free start N' m :=
  ⟨h.toNamed, fun c e he => (h.bindings c e he).imp id (And.imp id fun he => hN he), fun c hc e he => hN (h.start c hc e he)⟩

/-- An entity is noted for an operation that names storage, or the note is deleted. -/
theorem note (h : Bound ctx known free start N m) (distinct : ctx.graph.DistinctIds) {op : Operation}
    (hop : op ∈ Operation.subtrees ctx.graph.operations) (names : op.namesStorage = true) (e : Option Entity) :
    Bound ctx known free start N { m with notes := { m.notes with
      entities := match e with
        | some e => m.notes.entities.insert op.id e
        | none => m.notes.entities.erase op.id } } := by
  refine ⟨⟨h.method, h.tracksUnknown, h.answers, fun o ho hnames => ?_, h.running⟩, h.bindings, h.start⟩
  have hne : o.id ≠ op.id := fun hid => by
    obtain rfl := distinct.id_inj ho hop hid
    rw [names] at hnames
    cases hnames
  cases e with
  | some e => exact (FinMap.find?_insert_ne _ _ hne).trans (h.noted o ho hnames)
  | none => exact (FinMap.find?_erase_ne _ hne).trans (h.noted o ho hnames)

/-- A free temporary is made to stand for other storage. -/
theorem bind (h : Bound ctx known free start N m) {c : CaptureId} (hc : c ∈ free) {e : Entity} (he : e ∈ N) :
    Bound ctx known free start N { m with notes := { m.notes with resolver := m.notes.resolver.bind c e } } := by
  refine ⟨⟨h.method, h.tracksUnknown, h.answers, h.noted, h.running⟩, fun d x hd => ?_, h.start⟩
  have hd : (m.notes.resolver.bindings.insert c e).find? d = some x := hd
  by_cases hdc : d = c
  · subst hdc
    rw [FinMap.find?_insert_self, Option.some.injEq] at hd
    exact .inr ⟨hc, hd ▸ he⟩
  · exact h.bindings d x ((FinMap.find?_insert_ne _ _ hdc).symm.trans hd)

/-- What a known temporary stands for. -/
theorem mem_of_find? (h : Bound ctx known free start N m) {c : CaptureId} (hc : c ∈ known) {e : Entity}
    (he : m.notes.resolver.bindings.find? c = some e) : e ∈ N :=
  (h.bindings c e he).elim (h.start c hc e) And.right

/-- Resolving an operation keeps names as they are. What an operation is resolved to is its name, or what a
temporary stands for. -/
theorem resolve (h : Bound ctx known free start N m) (distinct : ctx.graph.DistinctIds) {op : Operation}
    (hop : op ∈ Operation.subtrees ctx.graph.operations) (unlocated : op.located? = none)
    (used : ∀ c, op.temporary? = some c → c ∈ known) (owner : Option PointsTo) (indices : List ElementIndex) :
    ∃ e r, m.notes.resolver.resolve op owner indices = (e, r) ∧
      Bound ctx known free start N { m with notes := { m.notes with resolver := r } } ∧
      ∀ x, e = some x → x ∈ N ∨ ctx.nameOf op owner indices = some x := by
  by_cases hv : Resolver.isVolatile op = true
  · refine ⟨_, _, by rw [Resolver.resolve, if_pos hv], h, fun x hx => ?_⟩
    have temporary : ∀ c type, c ∈ known → some (m.notes.resolver.temporary c type) = some x →
        x ∈ N ∨ some (Entity.temporary c ctx.owner type) = some x := by
      intro c type hc hx
      unfold Resolver.temporary at hx
      cases hb : m.notes.resolver.bindings.find? c with
      | some e =>
        rw [hb] at hx
        exact .inl (Option.some.inj hx ▸ h.mem_of_find? hc hb)
      | none =>
        rw [hb, h.method] at hx
        exact .inr hx
    cases op with
    | captureRef i c => exact temporary c i.type (used c rfl) hx
    | capture i c v byLocation =>
      cases byLocation with
      | false => exact temporary c i.type (used c rfl) hx
      | true => cases unlocated
    | _ => cases hv
  · have hname := h.entity?_eq (by simpa using hv) owner indices
    unfold Resolver.resolve
    rw [if_neg hv]
    cases hl : m.notes.resolver.answers.lookup ⟨op.id, owner, indices⟩ with
    | some a =>
      obtain rfl := h.answers op hop owner indices a hl
      exact ⟨_, _, by simp only [hl], h, fun x hx => .inr hx⟩
    | none =>
      refine ⟨_, { m.notes.resolver with answers := (⟨op.id, owner, indices⟩,
          m.notes.resolver.entity? op owner indices) :: m.notes.resolver.answers }, by simp only [hl],
        ⟨⟨h.method, h.tracksUnknown, ?_, h.noted, h.running⟩, h.bindings, h.start⟩, fun x hx => .inr (hname ▸ hx)⟩
      intro o ho owner' indices' a ha
      rw [List.lookup_cons] at ha
      split at ha
      · rename_i heq
        obtain ⟨hid, rfl, rfl⟩ := ResolverKey.mk.inj (eq_of_beq heq)
        obtain rfl := distinct.id_inj ho hop hid
        rw [← hname]
        exact (Option.some.inj ha).symm
      · exact h.answers o ho owner' indices' a ha

end Bound

namespace Visit

/-- Resolving an operation succeeds, notes its entity and changes nothing else. -/
theorem yields_resolve {ctx : Context V} {known free : Set CaptureId} {start : FinMap CaptureId Entity} {N : Set Entity}
    {m : Machine V} (h : Bound ctx known free start N m) (distinct : ctx.graph.DistinctIds) {op : Operation}
    (hop : op ∈ Operation.subtrees ctx.graph.operations) (names : op.namesStorage = true)
    (unlocated : op.located? = none) (used : ∀ c, op.temporary? = some c → c ∈ known)
    {owner : Option PointsTo} {indices : List ElementIndex} {Q : Option Entity → Machine V → Prop}
    (hQ : ∀ e m', m'.state = m.state → Bound ctx known free start N m' → m'.notes.entities.find? op.id = e →
      (∀ x, e = some x → x ∈ N ∨ ctx.nameOf op owner indices = some x) → Q e m') :
    Yields (resolve op owner indices) m Q := by
  obtain ⟨e, r, hr, hbound, hname⟩ := h.resolve distinct hop unlocated used owner indices
  simp only [resolve, yields_bind, yields_notes, yields_modifyNotes, yields_pure, recordEntity, hr]
  refine hQ e _ rfl (hbound.note distinct hop names e) ?_ hname
  cases e with
  | some e => exact FinMap.find?_insert_self _ _ _
  | none => exact FinMap.find?_erase_self _ _

end Visit

end Dataflow
