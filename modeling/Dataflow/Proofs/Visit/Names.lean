import Dataflow.Proofs.Entity.Resolver
import Dataflow.Proofs.Visit.Frame
import Dataflow.Proofs.Visit.Steps

/-!
# Stores into storage without a name

If only entities of known objects are to be tracked, the resolver has no name for a field or an element of any other
object. A read of it has an unknown value. A store into it is given up.

## The notions

* `Visit.KeepsNames`: a visit leaves the names of storage as they are.
* `Analysis.holder`: where the object is that the target of a store belongs to.

## What is proved

In a body with distinct identifiers resolvers stay faithful, whatever is visited (`Analysis.visit_faithful`). So a
store into a field or an element of an object that is not known has no effect on the state: after it the state is what
it was when the value had been evaluated (`Analysis.visit_unnamed`).
-/

namespace Dataflow

variable {V α β : Type}

/-! ### Visits keep names -/

namespace Visit

/-- The visit leaves the names of storage as they are, and the entities that are noted. -/
def KeepsNames (x : Visit V α) : Prop :=
  ∀ m, Ensures x m fun _ m' => m'.notes.resolver = m.notes.resolver ∧ m'.notes.entities = m.notes.entities

namespace KeepsNames

theorem frame : Frame fun m m' : Machine V =>
    m'.notes.resolver = m.notes.resolver ∧ m'.notes.entities = m.notes.entities where
  refl _ := ⟨rfl, rfl⟩
  trans h h' := ⟨h'.1.trans h.1, h'.2.trans h.2⟩
  ledger _ _ := ⟨rfl, rfl⟩
  hits _ _ := ⟨rfl, rfl⟩
  callees _ _ := ⟨rfl, rfl⟩

theorem pure (a : α) : KeepsNames (pure a : Visit V α) := frame.pure a

theorem bind {x : Visit V α} {f : α → Visit V β} (h : KeepsNames x) (hf : ∀ a, KeepsNames (f a)) : KeepsNames (x >>= f) :=
  frame.bind h hf

theorem setState (s : State V) : KeepsNames (setState s) := fun m => (ensures_setState s m _).2 ⟨rfl, rfl⟩

theorem update (f : State V → Checked (State V)) : KeepsNames (update f) :=
  fun m => (ensures_update f m _).2 fun _ _ => ⟨rfl, rfl⟩

theorem modifyHits (f : HitLog → HitLog) : KeepsNames (modifyHits f : Visit V Unit) := frame.modifyHits f

theorem recordReturn (op : OperationId) (v : V) : KeepsNames (recordReturn op v) :=
  fun m => (ensures_recordReturn op v m _).2 ⟨rfl, rfl⟩

end KeepsNames

end Visit

namespace Analysis

/-- What an analysis does besides naming storage leaves the names as they are. -/
structure KeepsNames (A : Analysis V) (ctx : Context V) : Prop where
  reference : ∀ op e, Visit.KeepsNames (A.reference ctx op e)
  assign : ∀ op e v, Visit.KeepsNames (A.assign ctx op e v)
  create : ∀ op vs, Visit.KeepsNames (A.create ctx op vs)
  createArray : ∀ op, Visit.KeepsNames (A.createArray ctx op)
  binary : ∀ op operator l r, Visit.KeepsNames (A.binary ctx op operator l r)
  convert : ∀ op v, Visit.KeepsNames (A.convert op v)
  invoke : ∀ usual call, Visit.KeepsNames (usual call) → Visit.KeepsNames (A.invoke ctx usual call)

/-- However a call is handled, the caller's names stay. -/
theorem handleCall_keepsNames [DecidableEq V] (A : Analysis V) (ctx : Context V) (call : Call V)
    (deeper : Option (Context V → Run V (Solution V))) : Visit.KeepsNames (A.handleCall ctx deeper call) :=
  handleCall_relates Visit.KeepsNames.frame (P := fun _ => True) (fun _ _ _ => Visit.KeepsNames.update _)
    (fun _ _ => trivial) (fun _ _ => trivial) deeper

/-! ### The analyses -/

/-- Names are kept by steps that relate the machines before and after that have the same ones. -/
theorem StepsRelate.keepsNames {A : Analysis V} {ctx : Context V}
    (h : A.StepsRelate (fun m m' => m'.notes.resolver = m.notes.resolver ∧ m'.notes.entities = m.notes.entities) ctx)
    (assign : ∀ op e v, Visit.KeepsNames (A.assign ctx op e v)) : A.KeepsNames ctx :=
  ⟨h.reference, assign, h.create, h.createArray, h.binary, h.convert, h.invoke⟩

theorem pointsTo_keepsNames (ctx : Context PointsTo) : pointsTo.KeepsNames ctx :=
  (pointsTo_stepsRelate Visit.KeepsNames.frame.toSteady ctx).keepsNames fun _ e _ => by
    cases e with
    | some e => exact (Visit.KeepsNames.update _).bind fun _ => .pure _
    | none => exact .pure _

theorem contents_keepsNames (ctx : Context Content) : contents.KeepsNames ctx :=
  (contents_stepsRelate Visit.KeepsNames.frame.toSteady ctx).keepsNames fun _ e _ => by
    cases e with
    | some e => exact Visit.KeepsNames.frame.bind Visit.KeepsNames.frame.state fun _ =>
        (Visit.KeepsNames.setState _).bind fun _ => .pure _
    | none => exact .pure _

theorem taint_keepsNames (rules : TaintRules) (ctx : Context Taint) : (taint rules).KeepsNames ctx :=
  (taint_stepsRelate Visit.KeepsNames.frame.toSteady Visit.KeepsNames.frame.hits (fun _ _ => ⟨rfl, rfl⟩) rules ctx).keepsNames fun op e v m =>
    (TaintAnalysis.assign_writes op e v m).mono fun _ m' after => by
      obtain ⟨-, _, _, rfl⟩ := after
      exact ⟨rfl, rfl⟩

/-! ### Visits -/

section Visits

variable {A : Analysis V} {ctx : Context V} {usual : Call V → Visit V V}

/-- What a temporary is made to stand for, after its operand was visited. -/
def linked? (op : Operation) (seen : List (Seen V)) : Option (CaptureId × Entity) :=
  match op, seen with
  | .capture _ c _ true, [s] => s.entity.map (c, ·)
  | _, _ => none

/-- What becomes of the resolver when an operation does what it does itself: it makes a temporary stand for storage, or
looks up a name, or has nothing to do with names. -/
def Relinks (op : Operation) (seen : List (Seen V)) (r r' : Resolver) : Prop :=
  match linked? op seen with
  | some (c, e) => r' = r.bind c e
  | none => r' = r ∨ ∃ owner indices, r' = (r.resolve op owner indices).2

theorem relinks_of_none {op : Operation} {seen : List (Seen V)} (h : linked? op seen = none) {r r' : Resolver} :
    Relinks op seen r r' ↔ r' = r ∨ ∃ owner indices, r' = (r.resolve op owner indices).2 := by
  unfold Relinks
  rw [h]

theorem relinks_of_some {op : Operation} {seen : List (Seen V)} {c : CaptureId} {e : Entity}
    (h : linked? op seen = some (c, e)) {r r' : Resolver} : Relinks op seen r r' ↔ r' = r.bind c e := by
  unfold Relinks
  rw [h]

variable [DecidableEq V] (H : A.KeepsNames ctx) (husual : IsUsual A ctx usual)
include H husual

/-- What an operation does to the resolver after its operands were visited. -/
theorem own_relinks (op : Operation) (seen : List (Seen V)) (m : Machine V) :
    Visit.Ensures (A.own ctx usual op seen) m fun _ m' => Relinks op seen m.notes.resolver m'.notes.resolver := by
  have kept (h : linked? op seen = none) {x : Visit V V} (hx : Visit.KeepsNames x) :
      Visit.Ensures x m fun _ m' => Relinks op seen m.notes.resolver m'.notes.resolver :=
    (hx m).mono fun _ m' same => (relinks_of_none h).2 (.inl same.1)
  have read (h : linked? op seen = none) (owner : Option PointsTo) (indices : List ElementIndex)
      (f : Option Entity → Visit V V) (hf : ∀ e, Visit.KeepsNames (f e)) :
      Visit.Ensures (Visit.resolve op owner indices >>= f) m fun _ m' =>
        Relinks op seen m.notes.resolver m'.notes.resolver := by
    rw [Visit.ensures_bind, Visit.ensures_resolve]
    exact (hf _ _).mono fun _ m' same => (relinks_of_none h).2 (.inr ⟨owner, indices, same.1⟩)
  have call (c : Call V) : Visit.KeepsNames (usual c) := by
    obtain ⟨deeper, rfl⟩ := husual
    exact A.handleCall_keepsNames ctx c deeper
  cases op with
  | literal | invalid => exact kept rfl (.pure _)
  | localRef | parameterRef | receiverRef | captureRef | fieldRef => exact read rfl _ _ _ fun e => H.reference _ e
  | elementRef =>
    cases seen with
    | nil => exact kept rfl (.pure _)
    | cons => exact read rfl _ _ _ fun e => H.reference _ e
  | assignment =>
    rcases seen with _ | ⟨_, _ | ⟨_, _ | ⟨_, _⟩⟩⟩
    case cons.cons.nil => exact kept rfl (H.assign _ _ _)
    all_goals exact kept rfl (.pure _)
  | objectCreation => exact kept rfl (H.create _ _)
  | arrayCreation => exact kept rfl (H.createArray _)
  | binary =>
    rcases seen with _ | ⟨_, _ | ⟨_, _ | ⟨_, _⟩⟩⟩
    case cons.cons.nil => exact kept rfl (H.binary _ _ _ _)
    all_goals exact kept rfl (.pure _)
  | conversion =>
    rcases seen with _ | ⟨_, _ | ⟨_, _⟩⟩
    case cons.nil => exact kept rfl (H.convert _ _)
    all_goals exact kept rfl (.pure _)
  | invocation info method receiver args =>
    exact kept rfl ((Visit.KeepsNames.modifyHits _).bind fun _ => H.invoke usual _ (call _))
  | capture info capture value byLocation =>
    rcases seen with _ | ⟨⟨v, e⟩, _ | ⟨_, _⟩⟩
    · cases byLocation <;> exact kept rfl (.pure _)
    · cases byLocation with
      | false => exact read rfl _ _ _ fun e => H.assign _ e _
      | true =>
        cases e with
        | none => exact kept rfl (.pure _)
        | some e =>
          show Visit.Ensures (A.link _ capture ⟨v, some e⟩) m _
          simp only [link, Visit.recordEntity, Visit.bindCapture, Visit.ensures_bind, Visit.ensures_modifyNotes,
            Visit.ensures_pure]
          rfl
    · cases byLocation <;> exact kept rfl (.pure _)
  | ret =>
    rcases seen with _ | ⟨_, _ | ⟨_, _⟩⟩
    case cons.nil => exact kept rfl ((Visit.KeepsNames.recordReturn _ _).bind fun _ => .pure _)
    all_goals exact kept rfl (.pure _)

variable (distinct : ctx.graph.DistinctIds)
include distinct

/-- What an operation does after its operands were visited keeps the resolver faithful. -/
theorem own_faithful {op : Operation} (hop : op ∈ Operation.subtrees ctx.graph.operations) (seen : List (Seen V))
    {m : Machine V} (h : m.notes.resolver.Faithful ctx) :
    Visit.Ensures (A.own ctx usual op seen) m fun _ m' => m'.notes.resolver.Faithful ctx := by
  refine (own_relinks H husual op seen m).mono fun _ m' relinks => ?_
  unfold Relinks at relinks
  split at relinks
  · rw [relinks]
    exact h.bind _ _
  · rcases relinks with same | ⟨owner, indices, same⟩
    · rw [same]
      exact h
    · rw [same]
      exact (h.resolve distinct hop owner indices).2

/-- Whatever is visited, the resolver stays faithful. -/
theorem visit_faithful {op : Operation} (hop : op ∈ Operation.subtrees ctx.graph.operations) {m : Machine V}
    (h : m.notes.resolver.Faithful ctx) :
    Visit.Ensures (A.visit ctx usual op) m fun _ m' => m'.notes.resolver.Faithful ctx := by
  induction op using Operation.operandInduction generalizing m with
  | h op ih =>
    have operands : ∀ o ∈ op.operands, ∀ m : Machine V, Visit.Ensures (A.visit ctx usual o) m fun _ m' =>
        m.notes.resolver.Faithful ctx → m'.notes.resolver.Faithful ctx := by
      intro o ho m v m' hrun hm
      exact ih o ho (Operation.mem_subtrees_of_mem_operands hop ho) hm v m' hrun
    simp only [visit_eq, Visit.ensures_bind]
    refine ensures_enter ((seeAll_ensures operands m).mono fun seen m₂ trail => ?_)
    have h₂ := trail.keeps (P := fun m => m.notes.resolver.Faithful ctx) (fun _ _ _ _ step => step) h
    refine (own_faithful H husual distinct hop seen h₂).mono fun v m₃ h₃ => ?_
    rw [Visit.ensures_recordValue, Visit.ensures_pure]
    exact h₃

theorem seeAll_faithful {ops : List Operation} (hops : ∀ o ∈ ops, o ∈ Operation.subtrees ctx.graph.operations)
    {m : Machine V} (h : m.notes.resolver.Faithful ctx) :
    Visit.Ensures (A.seeAll ctx usual ops) m fun _ m' => m'.notes.resolver.Faithful ctx := by
  refine (seeAll_ensures (T := fun _ m _ m' => m.notes.resolver.Faithful ctx → m'.notes.resolver.Faithful ctx)
    (fun o ho m v m' hrun hm => visit_faithful H husual distinct (hops o ho) hm v m' hrun) m).mono fun _ m' trail => ?_
  exact trail.keeps (P := fun m => m.notes.resolver.Faithful ctx) (fun _ _ _ _ step => step) h

end Visits

/-! ### Stores -/

section Stores

variable [DecidableEq V] (A : Analysis V) (ctx : Context V) (usual : Call V → Visit V V)

/-- Where the object is that a field or an element belongs to, as a visit of it finds out. -/
def holder : Operation → Visit V PointsTo
  | .fieldRef _ owner _ => do return (← A.visitOwner ctx usual owner).getD .unknown
  | .elementRef _ array _ => do return A.location ctx array (← A.visit ctx usual array)
  | _ => return PointsTo.noLocation

/-- A store into a field or an element of an object that is not known, which is visited while only entities of known
objects are tracked. -/
structure UnnamedStore (target : Operation) (op : Operation) (m : Machine V) : Prop where
  /-- The configuration. -/
  partialOnly : ctx.config.pointsToUse = .partialOnly
  /-- Identifiers tell the operations of the body apart. -/
  distinct : ctx.graph.DistinctIds
  /-- The store is one of them. -/
  mem : op ∈ Operation.subtrees ctx.graph.operations
  /-- The resolver remembers nothing wrong. -/
  faithful : m.notes.resolver.Faithful ctx
  /-- The way to handle calls. -/
  isUsual : IsUsual A ctx usual
  /-- What is stored into. -/
  member : target.isInstanceMember = true
  /-- It belongs to an object that is not known. -/
  unknown : ∃ location m', ExceptT.run (A.holder ctx usual target) m = (.ok location, m') ∧ location.isKnown = false

variable {A ctx usual}

/-- The target is no entity once its owner and its positions were visited. -/
theorem read_unnamed (H : A.KeepsNames ctx) {target op : Operation} {start m : Machine V}
    (h : UnnamedStore A ctx usual target op start) (htarget : target ∈ Operation.subtrees ctx.graph.operations)
    {owner : Option PointsTo} (indices : List ElementIndex) (faithful : m.notes.resolver.Faithful ctx)
    (unknown : (owner.getD .unknown).isKnown = false) :
    Visit.Ensures (do
      let v ← A.reference ctx target (← Visit.resolve target owner indices)
      Visit.recordValue target.id v
      return v) m fun _ m' => m'.notes.entities.find? target.id = none := by
  have untracked : m.notes.resolver.tracksUnknown = false := by
    rw [faithful.tracksUnknown, Context.tracksUnknown, h.partialOnly]
    rfl
  have nameless := (faithful.resolve h.distinct htarget owner indices).1.trans
    (Resolver.entity?_eq_none untracked indices unknown h.member)
  rw [Visit.ensures_bind, Visit.ensures_resolve, nameless]
  rw [Visit.ensures_bind]
  refine (H.reference target none _).mono fun _ m' kept => ?_
  rw [Visit.ensures_bind, Visit.ensures_recordValue, Visit.ensures_pure, kept.2]
  exact FinMap.find?_erase_self _ _

/-- A field or an element of an object that is not known stands for no entity. -/
theorem visit_member_unnamed (H : A.KeepsNames ctx) {target op : Operation} {m : Machine V}
    (h : UnnamedStore A ctx usual target op m) (htarget : target ∈ op.operands) :
    Visit.Ensures (A.visit ctx usual target) m fun _ m' => m'.notes.entities.find? target.id = none := by
  have htarget : target ∈ Operation.subtrees ctx.graph.operations :=
    Operation.mem_subtrees_of_mem_operands h.mem htarget
  have operand {o : Operation} (ho : o ∈ target.operands) : o ∈ Operation.subtrees ctx.graph.operations :=
    Operation.mem_subtrees_of_mem_operands htarget ho
  obtain ⟨location, m₁, hrun, unknown⟩ := h.unknown
  cases target with
  | fieldRef i owner field =>
    obtain ⟨found, m₁, howner, hfound⟩ := Visit.run_bind_eq_ok.1 hrun
    cases hfound
    have faithful : m₁.notes.resolver.Faithful ctx := by
      rw [visitOwner_eq, Visit.run_bind_eq_ok] at howner
      obtain ⟨seen, m₂, hseen, hpure⟩ := howner
      cases hpure
      exact seeAll_faithful H h.isUsual h.distinct (fun o ho => operand (by simpa [Operation.operands] using ho)) h.faithful _
        _ hseen
    rw [visit, Visit.ensures_bind]
    intro found' m' hrun'
    rw [howner] at hrun'
    cases hrun'
    exact read_unnamed H h htarget [] faithful unknown
  | elementRef i array indices =>
    obtain ⟨u, m₁, harray, hfound⟩ := Visit.run_bind_eq_ok.1 hrun
    cases hfound
    have faithful : m₁.notes.resolver.Faithful ctx :=
      visit_faithful H h.isUsual h.distinct (operand (by simp [Operation.operands])) h.faithful _ _ harray
    rw [visit, Visit.ensures_bind]
    intro u' m' hrun'
    rw [harray] at hrun'
    cases hrun'
    dsimp only
    rw [visitPositions_eq]
    simp only [bind_assoc, pure_bind]
    rw [Visit.ensures_bind]
    refine (seeAll_faithful H h.isUsual h.distinct (fun o ho => operand (by simp [Operation.operands, ho])) faithful).mono
      fun seen m₂ faithful => ?_
    exact read_unnamed H h htarget _ faithful unknown
  | _ => exact absurd h.member (by simp [Operation.isInstanceMember])

/-- If a store into no entity only has its value, then a store into a field or an element of an object that is not known
changes nothing once its value was evaluated. -/
theorem visit_store_unnamed (H : A.KeepsNames ctx)
    (nothing : ∀ op v m, Visit.Ensures (A.assign ctx op none v) m fun b m' => b = v ∧ m'.state = m.state)
    {i : OperationInfo} {target value : Operation} {m m' : Machine V} {v : V}
    (h : UnnamedStore A ctx usual target (.assignment i target value) m)
    (hrun : ExceptT.run (A.visit ctx usual (.assignment i target value)) m = (.ok v, m')) :
    ∃ u m₁ m₂, ExceptT.run (A.visit ctx usual target) m = (.ok u, m₁) ∧
      ExceptT.run (A.visit ctx usual value) m₁ = (.ok v, m₂) ∧ m'.state = m₂.state := by
  rw [visit] at hrun
  obtain ⟨u, m₁, htarget, hrun⟩ := Visit.run_bind_eq_ok.1 hrun
  obtain ⟨e, m₁', hentity, hrun⟩ := Visit.run_bind_eq_ok.1 hrun
  cases hentity
  obtain ⟨w, m₂, hvalue, hrun⟩ := Visit.run_bind_eq_ok.1 hrun
  rw [visit_member_unnamed H h (by simp [Operation.operands]) _ _ htarget] at hrun
  obtain ⟨b, m₃, hassign, hrecord⟩ := Visit.run_bind_eq_ok.1 hrun
  cases hrecord
  obtain ⟨rfl, same⟩ := nothing _ _ _ _ _ hassign
  exact ⟨u, m₁, m₂, htarget, hvalue, same⟩

end Stores

/-- **What is lost if only entities of known objects are tracked.** After a store into a field or an element of an
object that is not known the state is what it was when the value had been evaluated, in the analyses of references,
literal content and taint. So a tracked entity that may be the same storage has the value besides what it held only if
it covered it before. -/
theorem visit_unnamed (rules : TaintRules) :
    (∀ ctx usual i target value m v m', UnnamedStore pointsTo ctx usual target (.assignment i target value) m →
      ExceptT.run (pointsTo.visit ctx usual (.assignment i target value)) m = (.ok v, m') →
      ∃ u m₁ m₂, ExceptT.run (pointsTo.visit ctx usual target) m = (.ok u, m₁) ∧
        ExceptT.run (pointsTo.visit ctx usual value) m₁ = (.ok v, m₂) ∧ m'.state = m₂.state) ∧
    (∀ ctx usual i target value m v m', UnnamedStore contents ctx usual target (.assignment i target value) m →
      ExceptT.run (contents.visit ctx usual (.assignment i target value)) m = (.ok v, m') →
      ∃ u m₁ m₂, ExceptT.run (contents.visit ctx usual target) m = (.ok u, m₁) ∧
        ExceptT.run (contents.visit ctx usual value) m₁ = (.ok v, m₂) ∧ m'.state = m₂.state) ∧
    (∀ ctx usual i target value m v m', UnnamedStore (taint rules) ctx usual target (.assignment i target value) m →
      ExceptT.run ((taint rules).visit ctx usual (.assignment i target value)) m = (.ok v, m') →
      ∃ u m₁ m₂, ExceptT.run ((taint rules).visit ctx usual target) m = (.ok u, m₁) ∧
        ExceptT.run ((taint rules).visit ctx usual value) m₁ = (.ok v, m₂) ∧ m'.state = m₂.state) := by
  refine ⟨fun ctx _ _ _ _ _ _ _ => visit_store_unnamed (pointsTo_keepsNames ctx) fun _ v m => ?_,
    fun ctx _ _ _ _ _ _ _ => visit_store_unnamed (contents_keepsNames ctx) fun _ v m => ?_,
    fun ctx _ _ _ _ _ _ _ => visit_store_unnamed (taint_keepsNames rules ctx) fun op v m => ?_⟩
  · exact (Visit.ensures_pure _ _ _).2 ⟨rfl, rfl⟩
  · exact (Visit.ensures_pure _ _ _).2 ⟨rfl, rfl⟩
  · have stored (origins : FinSet SymbolAccess) : Visit.Ensures (do
        Visit.setOrigins op.id origins
        return v : Visit Taint Taint) m fun b m' => b = v ∧ m'.state = m.state := by
      simp [Visit.setOrigins]
    show Visit.Ensures (TaintAnalysis.assign op none v) m _
    unfold TaintAnalysis.assign
    cases TaintAnalysis.storedValue? op with
    | none => exact stored _
    | some value => exact stored _

/-! ### A node that some method finds -/

namespace Nodes

/-- The type of nodes. -/
def node : Option TypeRef := some (.reference "Node")

/-- The type of what nodes contain. -/
def int : Option TypeRef := some (.value "int")

/-- The field of a node with a number. -/
def number : Symbol := ⟨"number", .field, int, some "Node", .value, 0⟩

/-- The method that is analysed. -/
def main : Symbol := Symbol.method "C" "main" int

/-- What an operation carries. -/
def info (id : UInt32) (type : Option TypeRef) : OperationInfo := ⟨⟨id⟩, type, ⟨0, 0⟩⟩

/-- A local with a node. -/
def ref (id : UInt32) (name : String) : Operation := .localRef (info id node) (Symbol.localVar name node)

/-- The node that an operation creates. -/
def created (id : UInt32) : Location := .allocation ⟨id⟩ main node []

/-- A field of the node that an operation creates. -/
def entity (field : Symbol) (id : UInt32) : Entity := .member field (.known [created id] .notNull)

/-- A body of one block. -/
def body (operations : List Operation) : Graph :=
  ⟨main, [], [⟨⟨0⟩, .entry, operations, none, [⟨⟨1⟩, .regular⟩], []⟩, .bare ⟨1⟩ .exit]⟩

/-- A machine of the method. -/
def machine (s : State V) (tracksUnknown : Bool) : Machine V :=
  ⟨s, Notes.start (Resolver.start main tracksUnknown), Ledger.start false⟩

end Nodes

namespace Found

open Nodes

/-- The field of the node that was found. -/
def target : Operation := .fieldRef (info 11 int) (some (ref 10 "u")) number

/-- Stores two into it. -/
def secondStore : Operation := .assignment (info 13 int) target (.literal (info 12 int) (.integer 2))

/-- Creates a node with one in it, stores two into a node that some method found, and returns what is in the first one,
which may be the node that was found. -/
def graph : Graph := body
  [.assignment (info 2 node) (ref 0 "x") (.objectCreation (info 1 node) []),
    .assignment (info 5 node) (ref 3 "u") (.invocation (info 4 node) (Symbol.method "C" "find" node) none []),
    .assignment (info 9 int) (.fieldRef (info 7 int) (some (ref 6 "x")) number) (.literal (info 8 int) (.integer 1)),
    secondStore, .ret (info 16 int) (some (.fieldRef (info 15 int) (some (ref 14 "x")) number))]

/-- Only entities of known objects are tracked. -/
def start : Context V := Context.start graph { Config.usual with pointsToUse := .partialOnly } fun _ => none

/-- The body is run with what its references point to. -/
def context : Context Content := { start with
  pointsTo := ((pointsTo.solve start).run (Ledger.start false)).1.toOption }

/-- The machine before the store. -/
def before : Machine Content := machine (State.empty.insert (entity number 1) (.ofLiteral (.integer 1))) false

end Found

open Nodes Found in
/-- The store leaves what the first node contains. -/
theorem visit_unnamed_found : UnnamedStore contents context (contents.handleCall context none) target secondStore before ∧
    ∃ v m', ExceptT.run (contents.visit context (contents.handleCall context none) secondStore) before = (.ok v, m') ∧
      ∃ u m₁ m₂, ExceptT.run (contents.visit context (contents.handleCall context none) target) before = (.ok u, m₁) ∧
        ExceptT.run (contents.visit context (contents.handleCall context none) (.literal (info 12 int) (.integer 2))) m₁ =
          (.ok v, m₂) ∧ m'.state = m₂.state := by
  have unnamed : UnnamedStore contents context (contents.handleCall context none) target secondStore before := by
    refine ⟨rfl, by decide +kernel, ?_, Resolver.faithful_start context, ⟨none, rfl⟩, rfl, ?_⟩
    · have listed : secondStore ∈ context.graph.operations := by
        simp [context, start, Context.start, graph, body, Graph.operations, Block.allOperations]
      exact Operation.subtree_subset_of_mem listed _ secondStore.mem_subtree_self
    · have found : ((ExceptT.run (contents.holder context (contents.handleCall context none) target)
          before).1.toOption.bind fun v => (some v).map (·.isKnown)) = some false := by
        decide +kernel
      obtain ⟨v, m', w, h, hw, unknown⟩ := exists_of_inspected found
      exact ⟨v, m', h, Option.some.inj hw ▸ unknown⟩
  obtain ⟨v, m', h⟩ := exists_of_isOk
    (r := ExceptT.run (contents.visit context (contents.handleCall context none) secondStore) before) (by decide +kernel)
  obtain ⟨-, lost, -⟩ := visit_unnamed (TaintRules.ofConfig (KnownTypes.ofList []) .empty)
  exact ⟨unnamed, v, m', h, lost _ _ _ _ _ _ _ _ unnamed h⟩

open Nodes Found in
/-- In a run of the body two is stored into a node that is not known, and after that the first node contains one and
nothing else. -/
theorem not_visit_unnamed :
    (∃ p v, context.pointsTo = some p ∧ p.valueAt ⟨10⟩ = some v ∧ v.isKnown = false) ∧
    ∃ c ledger s, (contents.solve context).run (Ledger.start false) = (.ok c, ledger) ∧
      c.valueAt ⟨13⟩ = some (.ofLiteral (.integer 2)) ∧ c.stateBefore ⟨16⟩ = some s ∧
      (s.find? (entity number 1)).isSome = true ∧
        Content.merge (.ofLiteral (.integer 2)) (State.valueOr Domain.contents s (entity number 1)) ≠
          State.valueOr Domain.contents s (entity number 1) := by
  constructor
  · have unknown : (context.pointsTo.bind fun p => (p.valueAt ⟨10⟩).map (·.isKnown)) = some false := by decide +kernel
    obtain ⟨p, hp, unknown⟩ := Option.bind_eq_some_iff.1 unknown
    obtain ⟨v, hv, unknown⟩ := Option.map_eq_some_iff.1 unknown
    exact ⟨p, v, hp, hv, unknown⟩
  · have kept : (((contents.solve context).run (Ledger.start false)).1.toOption.bind fun c =>
        ((c.stateBefore ⟨16⟩).map fun s => (s, c.valueAt ⟨13⟩)).map fun (s, v) => (s.find? (entity number 1), v)) =
          some (some (.ofLiteral (.integer 1)), some (.ofLiteral (.integer 2))) := by
      decide +kernel
    obtain ⟨c, ledger, _, h, found, kept⟩ := exists_of_inspected kept
    obtain ⟨s, hs, rfl⟩ := Option.map_eq_some_iff.1 found
    obtain ⟨held, stored⟩ := Prod.mk.inj kept
    refine ⟨c, ledger, s, h, stored, hs, by rw [held]; rfl, ?_⟩
    rw [State.valueOr_of_find? _ held]
    decide +kernel

end Analysis

end Dataflow
