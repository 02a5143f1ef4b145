import Dataflow.Proofs.Congruence.Apart
import Dataflow.Proofs.Graph.Reachability
import Dataflow.Proofs.Visit.Steps

/-!
# Visits that differ in how calls are handled

Two runs over a body that differ in how they handle calls do the same between calls. So whatever relates
two ways to handle the calls of the body relates the runs, if it relates what does not notice some replacements to
itself, checks for cancellation to themselves, and visits that are made of related parts. The same goes for runs in
two contexts, if it relates what single operations do in them.

## The notions

* `Likeness`: such a relation of visits.
* `Context.Alike`: contexts of runs over one body from one state.
* `Graph.Calls`: the calls of a body.
* `Analysis.Ignores`: what operations do does not depend on something in the context.

## What is proved

Runs over a body are related if what its operations do is (`Likeness.settleBody_of_own`), and so if the ways to
handle its calls are (`Likeness.settleBody`).
-/

namespace Dataflow

variable {V : Type}

/-- A relation of visits that extends to visits made of related parts. -/
structure Likeness (V : Type) where
  /-- The relation. -/
  Rel : {α : Type} → Visit V α → Visit V α → Prop
  /-- Replacements that make no difference. -/
  Hidden : Replacement V → Prop
  /-- What does not notice these replacements is related to itself. -/
  blind : ∀ {α : Type} {x : Visit V α}, x.Blind Hidden → Rel x x
  /-- Related visits one after the other. -/
  bind : ∀ {α β : Type} {x y : Visit V α} {f g : α → Visit V β}, Rel x y → (∀ a, Rel (f a) (g a)) →
    Rel (x >>= f) (y >>= g)
  /-- A check for cancellation. -/
  checkCancelled : Rel Visit.checkCancelled Visit.checkCancelled
  /-- Hits may be withdrawn before or after a replacement. -/
  withdraw : ∀ φ, Hidden φ → ∀ op hits, φ.hits (hits.withdraw op) = (φ.hits hits).withdraw op

/-- The contexts are for runs over the same body from the same state. -/
structure Context.Alike (ctx ctx' : Context V) : Prop where
  /-- The body. -/
  graph : ctx'.graph = ctx.graph
  /-- How long blocks are visited without widening. -/
  visits : ctx'.config.visitsBeforeWidening = ctx.config.visitsBeforeWidening
  /-- Whether entities of unknown objects are tracked. -/
  tracksUnknown : ctx'.tracksUnknown = ctx.tracksUnknown
  /-- The state that the body starts in. -/
  entry : ctx'.entry = ctx.entry

theorem Context.Alike.refl {ctx : Context V} : ctx.Alike ctx := ⟨rfl, rfl, rfl, rfl⟩

/-- The call is one of the body. -/
def Graph.Calls (g : Graph) (call : Call V) : Prop :=
  call.operation ∈ Operation.subtrees g.operations ∧
    ∃ info receiver arguments, call.operation = .invocation info call.method receiver arguments

namespace Analysis

variable {A : Analysis V} {ctx : Context V} {P : Replacement V → Prop}

/-! What a call does to its caller does not notice what calls alone look at. -/

theorem storeAll_blind (l : List (Entity × V)) : Visit.Blind P (A.storeAll l) := .forM fun _ _ => .update _

theorem callOpaquely_blind (config : Config) (call : Call V) : Visit.Blind P (A.callOpaquely config call) :=
  (storeAll_blind _).bind fun _ => (Visit.Blind.state.bind fun _ => storeAll_blind _).bind fun _ => .pure _

theorem comeBack_blind [DecidableEq V] (call : Call V) (sol : Solution V) (inContext : Bool) :
    Visit.Blind P (A.comeBack ctx call sol inContext) := by
  refine (storeAll_blind _).bind fun _ => ?_
  cases inContext with
  | false => exact (Visit.Blind.state.bind fun _ => storeAll_blind _).bind fun _ => .pure _
  | true =>
    cases sol.finish with
    | none => exact .pure _
    | some exit => exact Visit.Blind.state.bind fun _ => (storeAll_blind _).bind fun _ => .pure _

end Analysis

namespace Likeness

variable (R : Likeness V) {A : Analysis V} {ctx ctx' : Context V} {usual usual' : Call V → Visit V V} {α : Type}

theorem forM {l : List α} {f g : α → Visit V PUnit} (h : ∀ a ∈ l, R.Rel (f a) (g a)) : R.Rel (l.forM f) (l.forM g) := by
  induction l with
  | nil => exact R.blind (.pure _)
  | cons a l ih => exact R.bind (h a List.mem_cons_self) fun _ => ih fun b hb => h b (List.mem_cons_of_mem _ hb)

/-- A visit that begins with something blind. -/
theorem bind_blind {β : Type} {x : Visit V α} {f g : α → Visit V β} (hx : x.Blind R.Hidden)
    (h : ∀ a, R.Rel (f a) (g a)) : R.Rel (x >>= f) (x >>= g) :=
  R.bind (R.blind hx) h

/-! ### Operations -/

/-- What an operation does is related to itself if the ways to handle calls are related. -/
theorem own (H : A.Blind R.Hidden) (usuals : ∀ call, ctx.graph.Calls call → R.Rel (usual call) (usual' call))
    {op : Operation} (hop : op ∈ Operation.subtrees ctx.graph.operations) (seen : List (Seen V)) :
    R.Rel (A.own ctx usual op seen) (A.own ctx usual' op seen) := by
  have read (owner : Option PointsTo) (indices : List ElementIndex) :
      Visit.Blind R.Hidden (Visit.resolve op owner indices >>= A.reference ctx op) :=
    (Visit.Blind.resolve _ _ _).bind fun e => H.reference ctx op e
  cases op with
  | invocation info method receiver args =>
    refine R.bind_blind (.modifyHits fun φ hφ hits => R.withdraw φ hφ _ hits) fun _ => ?_
    obtain ⟨before, after, hbefore, hafter, eq⟩ := H.invoke ctx (A.callOf ctx _ method receiver args seen)
    rw [eq, eq]
    refine R.bind_blind hbefore fun v => ?_
    cases v with
    | some v => exact R.blind (.pure v)
    | none => exact R.bind (usuals _ ⟨hop, info, receiver, args, rfl⟩) fun v => R.blind (hafter v)
  | literal | invalid => exact R.blind (.pure _)
  | localRef | parameterRef | receiverRef | captureRef | fieldRef => exact R.blind (read _ _)
  | elementRef =>
    match seen with
    | [] => exact R.blind (.pure _)
    | _ :: _ => exact R.blind (read _ _)
  | assignment =>
    match seen with
    | [] | [_] | _ :: _ :: _ :: _ => exact R.blind (.pure _)
    | [_, _] => exact R.blind (H.assign _ _ _ _)
  | objectCreation => exact R.blind (H.create _ _ _)
  | arrayCreation => exact R.blind (H.createArray _ _)
  | binary =>
    match seen with
    | [] | [_] | _ :: _ :: _ :: _ => exact R.blind (.pure _)
    | [_, _] => exact R.blind (H.binary _ _ _ _ _)
  | conversion =>
    match seen with
    | [] | _ :: _ :: _ => exact R.blind (.pure _)
    | [_] => exact R.blind (H.convert _ _)
  | capture info capture value byLocation =>
    match byLocation, seen with
    | true, [] | false, [] | true, _ :: _ :: _ | false, _ :: _ :: _ => exact R.blind (.pure _)
    | false, [_] => exact R.blind ((Visit.Blind.resolve _ _ _).bind fun _ => H.assign _ _ _ _)
    | true, [⟨v, none⟩] => exact R.blind (.pure _)
    | true, [⟨v, some e⟩] =>
      exact R.blind ((Visit.Blind.recordEntity _ _).bind fun _ => (Visit.Blind.bindCapture _ _).bind fun _ => .pure _)
  | ret =>
    match seen with
    | [] | _ :: _ :: _ => exact R.blind (.pure _)
    | [_] => exact R.blind ((Visit.Blind.recordReturn _ _).bind fun _ => .pure _)

theorem seeAll {ops : List Operation} (spec : ∀ op ∈ ops, R.Rel (A.visit ctx usual op) (A.visit ctx' usual' op)) :
    R.Rel (A.seeAll ctx usual ops) (A.seeAll ctx' usual' ops) := by
  induction ops with
  | nil => exact R.blind (.pure _)
  | cons op ops ih =>
    have first : R.Rel (A.see ctx usual op) (A.see ctx' usual' op) :=
      R.bind (spec op List.mem_cons_self) fun v => R.blind ((Visit.Blind.entityOf _).bind fun _ => .pure _)
    refine R.bind first fun s => R.bind (ih fun o ho => spec o (List.mem_cons_of_mem _ ho)) fun _ => ?_
    exact R.blind (.pure _)

variable (owns : ∀ op ∈ Operation.subtrees ctx.graph.operations, ∀ seen,
  R.Rel (A.own ctx usual op seen) (A.own ctx' usual' op seen))
include owns

/-- Visits of all operations of the body are related: by induction over operands. -/
theorem visit {op : Operation} (hop : op ∈ Operation.subtrees ctx.graph.operations) :
    R.Rel (A.visit ctx usual op) (A.visit ctx' usual' op) := by
  induction op using Operation.operandInduction with
  | h op ih =>
    have entered : R.Rel (Analysis.enter op : Visit V Unit) (Analysis.enter op) := by
      unfold Analysis.enter
      split
      · exact R.checkCancelled
      · exact R.blind (.pure _)
    have operands : ∀ o ∈ op.operands, o ∈ Operation.subtrees ctx.graph.operations := fun o ho =>
      Operation.mem_subtrees_of_mem_operands hop ho
    rw [Analysis.visit_eq, Analysis.visit_eq]
    refine R.bind entered fun _ => R.bind (R.seeAll fun o ho => ih o ho (operands o ho)) fun seen => ?_
    exact R.bind (owns op hop seen) fun v => R.blind ((Visit.Blind.recordValue _ _).bind fun _ => .pure _)

/-! ### Bodies -/

omit owns in
theorem leaveScope (locals : List Symbol) : R.Rel (A.leaveScope locals) (A.leaveScope locals) :=
  R.blind (.forM fun symbol _ =>
    .resolver_bind (fun r => Visit.update (A.forget (r.localVar symbol))) fun _ => .update _)

theorem runBlock {b : Block} (hb : b ∈ ctx.graph.blocks) (s : State V) :
    R.Rel (A.runBlock ctx usual b s) (A.runBlock ctx' usual' b s) := by
  refine R.bind_blind (.setState s) fun _ => R.bind (R.forM fun op hop => ?_) fun _ =>
    R.bind (R.leaveScope _) fun _ => R.blind .state
  have mem := Graph.allOperations_subset hb op hop
  exact R.bind_blind (.recordBefore _) fun _ => R.bind (R.visit owns mem) fun _ => R.blind (.pure _)

variable [DecidableEq V] (alike : ctx.Alike ctx')
include alike

theorem visitBlock (initial : State V) {b : Block} (hb : b ∈ ctx.graph.blocks) (p : Progress V) :
    R.Rel (A.visitBlock ctx usual initial b p) (A.visitBlock ctx' usual' initial b p) := by
  unfold Analysis.visitBlock
  rw [alike.graph, alike.visits]
  refine R.bind R.checkCancelled fun _ => ?_
  split
  · exact R.blind (.pure _)
  · refine R.bind (R.runBlock owns hb _) fun output => R.blind ?_
    split
    · exact .pure _
    · exact .pure _

theorem sweep (initial : State V) {l : List Block} (hl : ∀ b ∈ l, b ∈ ctx.graph.blocks) (p : Progress V) :
    R.Rel (A.sweep ctx usual initial l p) (A.sweep ctx' usual' initial l p) := by
  induction l generalizing p with
  | nil => exact R.blind (.pure _)
  | cons b l ih =>
    refine R.bind (R.visitBlock owns alike initial (hl b List.mem_cons_self) p) fun r => ?_
    refine R.bind (ih (fun c hc => hl c (List.mem_cons_of_mem _ hc)) r.1) fun _ => R.blind (.pure _)

theorem settle (initial : State V) {order : List Block} (horder : ∀ b ∈ order, b ∈ ctx.graph.blocks) (limit : Nat)
    (p : Progress V) :
    R.Rel (A.settle ctx usual initial order limit p) (A.settle ctx' usual' initial order limit p) := by
  induction limit generalizing p with
  | zero =>
    rw [Analysis.settle, Analysis.settle]
    exact R.blind (.throw _)
  | succ limit ih =>
    rw [Analysis.settle, Analysis.settle]
    refine R.bind (R.sweep owns alike initial horder _) fun r => ?_
    dsimp only
    split
    · exact ih r.1
    · exact R.blind (.pure _)

/-- Runs over a body are related if what its operations do is. -/
theorem settleBody_of_own : R.Rel (A.settleBody ctx usual) (A.settleBody ctx' usual') := by
  have initial : A.initialState ctx' = A.initialState ctx := by
    unfold Analysis.initialState Analysis.defaultEntry Analysis.initialEntities Context.owner
    rw [alike.entry, alike.graph]
  unfold Analysis.settleBody
  rw [initial, alike.graph]
  exact R.bind_blind (.check _) fun initial =>
    R.settle owns alike initial (fun _ hb => Analysis.mem_blocks_of_mem_sweepOrder hb) _ _

omit owns alike in
/-- Runs over a body are related if the ways to handle its calls are. -/
theorem settleBody (H : A.Blind R.Hidden) (usuals : ∀ call, ctx.graph.Calls call → R.Rel (usual call) (usual' call)) :
    R.Rel (A.settleBody ctx usual) (A.settleBody ctx usual') :=
  R.settleBody_of_own (fun _ hop seen => R.own H usuals hop seen) .refl

end Likeness

/-! ### Contexts -/

/-- Equality of visits. -/
def Likeness.eq (V : Type) : Likeness V where
  Rel x y := x = y
  Hidden _ := False
  blind _ := rfl
  bind h hf := by rw [h, funext hf]
  checkCancelled := rfl
  withdraw _ h := h.elim

namespace Analysis

variable {A : Analysis V} {ctx ctx' : Context V} {usual usual' : Call V → Visit V V}

/-- Runs in two contexts come to the same if what operations do in them does. -/
theorem solveBody_congr [DecidableEq V] (alike : ctx.Alike ctx')
    (owns : ∀ op ∈ Operation.subtrees ctx.graph.operations, ∀ seen,
      A.own ctx usual op seen = A.own ctx' usual' op seen) :
    A.solveBody ctx usual = A.solveBody ctx' usual' := by
  have body : A.settleBody ctx usual = A.settleBody ctx' usual' := (Likeness.eq V).settleBody_of_own owns alike
  unfold solveBody Context.owner
  rw [body, alike.graph, alike.tracksUnknown]
  have solution : A.solutionOf ctx' = A.solutionOf ctx := by
    funext p n
    unfold solutionOf
    rw [alike.graph]
  rw [solution]

variable (A) in
/-- What the hooks of the analysis do at some operations is the same if the context is changed in some way. -/
structure Ignores (change : Context V → Context V) (P : Operation → Prop) : Prop where
  location : ∀ ctx, A.location (change ctx) = A.location ctx
  reference : ∀ ctx, A.reference (change ctx) = A.reference ctx
  assign : ∀ ctx, A.assign (change ctx) = A.assign ctx
  create : ∀ ctx info args, P (.objectCreation info args) →
    A.create (change ctx) (.objectCreation info args) = A.create ctx (.objectCreation info args)
  createArray : ∀ ctx info dimensions, P (.arrayCreation info dimensions) →
    A.createArray (change ctx) (.arrayCreation info dimensions) = A.createArray ctx (.arrayCreation info dimensions)
  binary : ∀ ctx info operator l r, P (.binary info operator l r) →
    A.binary (change ctx) (.binary info operator l r) operator = A.binary ctx (.binary info operator l r) operator
  invoke : ∀ ctx, A.invoke (change ctx) = A.invoke ctx

/-- Then what such an operation does is the same. -/
theorem Ignores.own {change : Context V → Context V} {P : Operation → Prop} (H : A.Ignores change P) {op : Operation}
    (hop : P op) (seen : List (Seen V)) : A.own (change ctx) usual op seen = A.own ctx usual op seen := by
  have argument : A.argumentOf (change ctx) = A.argumentOf ctx := by
    funext a s
    simp only [argumentOf, operandOf, H.location ctx]
  have call (op : Operation) (method : Symbol) (receiver : Option Operation) (args : List (Argument Operation)) :
      A.callOf (change ctx) op method receiver args seen = A.callOf ctx op method receiver args seen := by
    simp only [callOf, operandOf, argument, H.location ctx]
  cases op with
  | literal | invalid => rfl
  | localRef | parameterRef | receiverRef | captureRef => simp only [Analysis.own, H.reference ctx]
  | fieldRef => simp only [Analysis.own, H.reference ctx, H.location ctx]
  | elementRef =>
    cases seen with
    | nil => rfl
    | cons => simp only [Analysis.own, H.reference ctx, H.location ctx]
  | assignment =>
    rcases seen with _ | ⟨_, _ | ⟨_, _ | ⟨_, _⟩⟩⟩
    · rfl
    · rfl
    · simp only [Analysis.own, H.assign ctx]
    · rfl
  | objectCreation info args => simp only [Analysis.own, H.create ctx _ _ hop, argument]
  | arrayCreation info dimensions => simp only [Analysis.own, H.createArray ctx _ _ hop]
  | invocation => simp only [Analysis.own, H.invoke ctx, call]
  | binary info operator l r =>
    rcases seen with _ | ⟨_, _ | ⟨_, _ | ⟨_, _⟩⟩⟩
    · rfl
    · rfl
    · simp only [Analysis.own, H.binary ctx _ _ _ _ hop]
    · rfl
  | conversion | ret => rcases seen with _ | ⟨_, _ | ⟨_, _⟩⟩ <;> rfl
  | capture info capture value byLocation =>
    cases byLocation with
    | true => rcases seen with _ | ⟨_, _ | ⟨_, _⟩⟩ <;> rfl
    | false =>
      rcases seen with _ | ⟨_, _ | ⟨_, _⟩⟩
      · rfl
      · simp only [Analysis.own, H.assign ctx]
      · rfl

end Analysis

end Dataflow
