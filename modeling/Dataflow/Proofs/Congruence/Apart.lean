import Dataflow.Analysis.Contents
import Dataflow.Analysis.Copies
import Dataflow.Analysis.PointsTo
import Dataflow.Analysis.Taint
import Dataflow.Proofs.Visit.Ensures

/-!
# What has nothing to do with calls

Only calls and checks for cancellation look at the ledger, and only calls at what is noted about callees.
Whatever else a visit does comes to the same with anything else in their place, and leaves it as it is. The same goes
for the hits, but for sinks of untrusted data.

## The notions

* `Replacement`: what takes the place of the ledger, of the solutions of callees, and of the hits.
* `Visit.Blind`: a visit does not notice some replacements.
* `Visit.Apart`: a visit does not notice any replacement of the ledger.

## What is proved

Each step that works on the state or on the other notes is blind to replacements, and so is what is made of such steps.
The hooks of the four analyses are, those of the taint analysis as long as the hits stay; a call does something blind,
may then be handled in the usual way, and does something blind with what that comes to (`Analysis.Blind`,
`Analysis.Apart`).
-/

namespace Dataflow

variable {V α β : Type}

/-- What takes the place of the ledger, of the solutions of callees, and of the hits. -/
structure Replacement (V : Type) where
  /-- What is shared with other runs. -/
  ledger : Ledger V → Ledger V
  /-- The solutions of callees. -/
  callees : FinMap OperationId (Solution V) → FinMap OperationId (Solution V)
  /-- Where untrusted data reaches sensitive arguments. -/
  hits : HitLog → HitLog

namespace Replacement

/-- Puts other things in the place of what the machine has. -/
def put (φ : Replacement V) (m : Machine V) : Machine V :=
  { m with
    ledger := φ.ledger m.ledger
    notes := { m.notes with
      callees := φ.callees m.notes.callees
      hits := φ.hits m.notes.hits } }

/-- Another ledger takes the place of the ledger, and everything else stays. -/
def IsLedger (φ : Replacement V) : Prop := ∃ l, φ = ⟨fun _ => l, id, id⟩

theorem hits_of_isLedger {φ : Replacement V} (h : φ.IsLedger) : φ.hits = id := by
  obtain ⟨l, rfl⟩ := h
  rfl

end Replacement

namespace Visit

/-- The visit comes to the same whichever of some replacements is made, and leaves what was put in. -/
def Blind (P : Replacement V → Prop) (x : Visit V α) : Prop :=
  ∀ φ, P φ → ∀ m, ExceptT.run x (φ.put m) = ((ExceptT.run x m).1, φ.put (ExceptT.run x m).2)

/-- The visit comes to the same with any ledger, and leaves it. -/
def Apart (x : Visit V α) : Prop :=
  ∀ (m : Machine V) (l : Ledger V), ExceptT.run x { m with ledger := l } =
    ((ExceptT.run x m).1, { (ExceptT.run x m).2 with ledger := l })

theorem Apart.ledger_eq {x : Visit V α} {m : Machine V} (h : Apart x) : (ExceptT.run x m).2.ledger = m.ledger :=
  congrArg (fun r => r.2.ledger) (h m m.ledger)

theorem Blind.apart {x : Visit V α} (h : Blind Replacement.IsLedger x) : Apart x := fun m l => h _ ⟨l, rfl⟩ m

theorem Apart.blind {x : Visit V α} (h : Apart x) : Blind Replacement.IsLedger x := by
  rintro _ ⟨l, rfl⟩ m
  exact h m l

theorem Apart.pure (a : α) : Apart (pure a : Visit V α) := fun _ _ => rfl

theorem Apart.state : Apart (state : Visit V (State V)) := fun _ _ => rfl

theorem Apart.modifyNotes (f : Notes V → Notes V) : Apart (modifyNotes f) := fun _ _ => rfl

namespace Blind

variable {P : Replacement V → Prop} {x : Visit V α} {f : α → Visit V β}

theorem pure (a : α) : Blind P (pure a : Visit V α) := fun _ _ _ => rfl

theorem throw (e : Failure) : Blind P (throw e : Visit V α) := fun _ _ _ => rfl

theorem bind (h : Blind P x) (hf : ∀ a, Blind P (f a)) : Blind P (x >>= f) := by
  intro φ hφ m
  rw [run_bind, run_bind, h φ hφ m]
  rcases ExceptT.run x m with ⟨e | a, m'⟩
  · rfl
  · exact hf a φ hφ m'

/-! ### Steps -/

theorem state : Blind P (state : Visit V (State V)) := fun _ _ _ => rfl

theorem setState (s : State V) : Blind P (setState s) := fun _ _ _ => rfl

theorem check (c : Checked α) : Blind P (check c : Visit V α) := by
  cases c with
  | ok a => exact .pure a
  | error v => exact .throw _

theorem update (f : State V → Checked (State V)) : Blind P (update f) :=
  state.bind fun _ => (check _).bind fun _ => setState _

theorem modifyHits {f : HitLog → HitLog} (h : ∀ φ, P φ → ∀ hits, φ.hits (f hits) = f (φ.hits hits)) :
    Blind P (modifyHits f : Visit V Unit) := by
  intro φ hφ m
  show (Except.ok (), { φ.put m with notes := { (φ.put m).notes with hits := f (φ.hits m.notes.hits) } }) = _
  rw [← h φ hφ]
  rfl

/-- The names of storage are looked at. -/
theorem resolver_bind (f : Resolver → Visit V β) (h : ∀ r, Blind P (f r)) :
    Blind P (notes >>= fun n => f n.resolver) := fun φ hφ m => h m.notes.resolver φ hφ m

theorem recordBefore (op : OperationId) : Blind P (recordBefore op : Visit V Unit) := fun _ _ _ => rfl

theorem recordValue (op : OperationId) (v : V) : Blind P (recordValue op v) := fun _ _ _ => rfl

theorem recordReturn (op : OperationId) (v : V) : Blind P (recordReturn op v) := fun _ _ _ => rfl

theorem entityOf (op : OperationId) : Blind P (entityOf op : Visit V (Option Entity)) := fun _ _ _ => rfl

theorem recordEntity (op : OperationId) (e : Option Entity) : Blind P (recordEntity op e : Visit V Unit) :=
  fun _ _ _ => rfl

theorem bindCapture (capture : CaptureId) (target : Entity) : Blind P (bindCapture capture target : Visit V Unit) :=
  fun _ _ _ => rfl

theorem resolve (op : Operation) (owner : Option PointsTo) (indices : List ElementIndex) :
    Blind P (resolve op owner indices : Visit V (Option Entity)) := fun _ _ _ => rfl

theorem originsOf (op : OperationId) : Blind P (originsOf op : Visit V (FinSet SymbolAccess)) := fun _ _ _ => rfl

theorem originsOfAll (ops : List Operation) : Blind P (originsOfAll ops : Visit V (FinSet SymbolAccess)) :=
  fun _ _ _ => rfl

theorem entityOriginsOf (e : Option Entity) : Blind P (entityOriginsOf e : Visit V (FinSet SymbolAccess)) :=
  fun _ _ _ => rfl

theorem setOrigins (op : OperationId) (origins : FinSet SymbolAccess) : Blind P (setOrigins op origins : Visit V Unit) :=
  fun _ _ _ => rfl

theorem addEntityOrigins (e : Entity) (origins : FinSet SymbolAccess) :
    Blind P (addEntityOrigins e origins : Visit V Unit) := fun _ _ _ => rfl

theorem forM {l : List β} {f : β → Visit V PUnit} (h : ∀ b ∈ l, Blind P (f b)) : Blind P (l.forM f) := by
  induction l with
  | nil => exact .pure _
  | cons b l ih => exact (h b List.mem_cons_self).bind fun _ => ih fun c hc => h c (List.mem_cons_of_mem _ hc)

end Blind

end Visit

/-! ### Hooks -/

namespace Analysis

variable {A : Analysis V} {P : Replacement V → Prop}

/-- Does something that may come to a value; if it does not, goes on in the usual way, and with what that comes to. -/
def besideUsual (before : Visit V (Option V)) (usual : Visit V V) (after : V → Visit V V) : Visit V V := do
  match ← before with
  | some v => return v
  | none => after (← usual)

/-- The hooks of the analysis do not notice some replacements but for calls that are handled in the usual way. -/
structure Blind (P : Replacement V → Prop) (A : Analysis V) : Prop where
  reference : ∀ ctx op e, Visit.Blind P (A.reference ctx op e)
  assign : ∀ ctx op e v, Visit.Blind P (A.assign ctx op e v)
  create : ∀ ctx op vs, Visit.Blind P (A.create ctx op vs)
  createArray : ∀ ctx op, Visit.Blind P (A.createArray ctx op)
  binary : ∀ ctx op operator l r, Visit.Blind P (A.binary ctx op operator l r)
  convert : ∀ op v, Visit.Blind P (A.convert op v)
  /-- A call has its value from the analysis, or the usual one is made into it. -/
  invoke : ∀ ctx call, ∃ (before : Visit V (Option V)) (after : V → Visit V V),
    Visit.Blind P before ∧ (∀ v, Visit.Blind P (after v)) ∧
      ∀ usual, A.invoke ctx usual call = besideUsual before (usual call) after

/-- The hooks of the analysis have nothing to do with the ledger but for calls that are handled in the usual way. -/
def Apart (A : Analysis V) : Prop := A.Blind Replacement.IsLedger

theorem blind_read (D : Domain V) (unknown : V) (e : Option Entity) : Visit.Blind P (do
    match e with
    | some e => return State.valueOr D (← Visit.state) e
    | none => return unknown : Visit V V) := by
  cases e with
  | some e => exact Visit.Blind.state.bind fun _ => .pure _
  | none => exact .pure _

theorem blind_store (write : Entity → V → State V → Checked (State V)) (e : Option Entity) (v : V) : Visit.Blind P (do
    match e with
    | some e => Visit.update (write e v)
    | none => pure ()
    return v : Visit V V) := by
  cases e with
  | some e => exact (Visit.Blind.update _).bind fun _ => .pure _
  | none => exact .pure _

/-- Calls are handled in the usual way. -/
theorem exists_usual (h : ∀ ctx usual call, A.invoke ctx usual call = usual call) (ctx : Context V) (call : Call V) :
    ∃ (before : Visit V (Option V)) (after : V → Visit V V),
      Visit.Blind P before ∧ (∀ v, Visit.Blind P (after v)) ∧
        ∀ usual, A.invoke ctx usual call = besideUsual before (usual call) after :=
  ⟨pure none, pure, .pure _, fun _ => .pure _, fun usual => by simp [h, besideUsual]⟩

theorem PointsToAnalysis.allocation_blind {P : Replacement PointsTo → Prop} (ctx : Context PointsTo) (op : Operation) :
    Visit.Blind P (allocation ctx op) :=
  .check _

theorem PointsToAnalysis.binary_blind {P : Replacement PointsTo → Prop} (ctx : Context PointsTo) (op : Operation)
    (operator : BinaryOperator) : Visit.Blind P (binary ctx op operator) := by
  unfold binary
  split
  · exact allocation_blind ctx op
  · exact .pure _

theorem pointsTo_blind (P : Replacement PointsTo → Prop) : pointsTo.Blind P where
  reference _ _ e := blind_read _ _ e
  assign _ _ e v := blind_store (fun e v s => .ok (State.write Domain.pointsTo e v s)) e v
  create ctx op _ := PointsToAnalysis.allocation_blind ctx op
  createArray ctx op := PointsToAnalysis.allocation_blind ctx op
  binary ctx op operator _ _ := PointsToAnalysis.binary_blind ctx op operator
  convert _ _ := .pure _
  invoke := exists_usual fun _ _ _ => rfl

theorem copies_blind (P : Replacement CopyClass → Prop) : copies.Blind P where
  reference _ _ e := blind_read _ _ e
  assign _ _ e v := by
    cases e with
    | some e => exact (Visit.Blind.update _).bind fun _ => Visit.Blind.state.bind fun _ => .pure _
    | none => exact .pure _
  create _ _ _ := .pure _
  createArray _ _ := .pure _
  binary _ _ _ _ _ := .pure _
  convert _ _ := .pure _
  invoke := exists_usual fun _ _ _ => rfl

theorem contents_blind (P : Replacement Content → Prop) : contents.Blind P where
  reference _ _ e := blind_read _ _ e
  assign _ _ e v := by
    cases e with
    | some e => exact Visit.Blind.state.bind fun _ => (Visit.Blind.setState _).bind fun _ => .pure _
    | none => exact .pure _
  create _ _ _ := .pure _
  createArray _ _ := .pure _
  binary _ _ _ _ _ := .check _
  convert _ _ := .pure _
  invoke := exists_usual fun _ _ _ => rfl

namespace TaintAnalysis

variable {P : Replacement Taint → Prop}

theorem bringIn_blind (ctx : Context Taint) (symbol : Symbol) (op : Operation) : Visit.Blind P (bringIn ctx symbol op) :=
  (Visit.Blind.setOrigins _ _).bind fun _ => .pure _

theorem passOn_blind (op : Operation) (v : Taint) : Visit.Blind P (passOn op v) :=
  (Visit.Blind.originsOfAll _).bind fun _ => (Visit.Blind.setOrigins _ _).bind fun _ => .pure _

theorem readEntity_blind (op : Operation) (e : Option Entity) : Visit.Blind P (readEntity op e) := by
  refine (Visit.Blind.entityOriginsOf e).bind fun _ => (Visit.Blind.setOrigins _ _).bind fun _ => ?_
  exact blind_read _ _ e

theorem reference_blind (rules : TaintRules) (ctx : Context Taint) (op : Operation) (e : Option Entity) :
    Visit.Blind P (reference rules ctx op e) := by
  unfold reference
  split
  · split
    · exact bringIn_blind _ _ _
    · exact readEntity_blind _ _
  · exact readEntity_blind _ _

theorem assign_blind (op : Operation) (e : Option Entity) (v : Taint) : Visit.Blind P (assign op e v) := by
  unfold assign
  have store (origins : FinSet SymbolAccess) : Visit.Blind P (do
      match e with
      | some e =>
        Visit.addEntityOrigins e origins
        Visit.setState (State.write Domain.taint e v (← Visit.state))
      | none => pure ()
      Visit.setOrigins op.id origins
      return v : Visit Taint Taint) := by
    cases e with
    | some e =>
      exact (Visit.Blind.addEntityOrigins _ _).bind fun _ => Visit.Blind.state.bind fun _ => (Visit.Blind.setState _).bind
        fun _ => (Visit.Blind.setOrigins _ _).bind fun _ => .pure _
    | none => exact (Visit.Blind.setOrigins _ _).bind fun _ => .pure _
  cases storedValue? op with
  | some value => exact (Visit.Blind.originsOf _).bind store
  | none => exact (Visit.Blind.pure _).bind store

section Hits

variable (keeps : ∀ φ, P φ → φ.hits = id)
include keeps

theorem recordHit_blind (rules : TaintRules) (ctx : Context Taint) (call : Call Taint)
    (argument : Operand Taint × Nat) :
    Visit.Blind P (recordHit rules ctx call argument) := by
  obtain ⟨a, position⟩ := argument
  unfold recordHit
  dsimp only
  split
  · exact (Visit.Blind.originsOf _).bind fun _ => .modifyHits fun φ hφ _ => by rw [keeps φ hφ]; rfl
  · exact .pure _

theorem recordHits_blind (rules : TaintRules) (ctx : Context Taint) (call : Call Taint) :
    Visit.Blind P (recordHits rules ctx call) := .forM fun _ _ => recordHit_blind keeps _ _ _ _

end Hits

/-- What a call does before it may be handled in the usual way. -/
def beforeUsual (rules : TaintRules) (ctx : Context Taint) (call : Call Taint) : Visit Taint (Option Taint) := do
  let op := call.operation
  if rules.isSanitizer call.method then
    Visit.setOrigins op.id FinSet.empty
    return some .notTainted
  if rules.isSink call.method then recordHits rules ctx call
  if rules.isSourceMethod call.method then return some (← bringIn ctx call.method op)
  return none

/-- What a call does with what the usual way comes to. -/
def afterUsual (call : Call Taint) (v : Taint) : Visit Taint Taint := do
  if v = .tainted then passOn call.operation v
  else
    Visit.setOrigins call.operation.id FinSet.empty
    return v

theorem invoke_eq (rules : TaintRules) (ctx : Context Taint) (usual : Call Taint → Visit Taint Taint)
    (call : Call Taint) : invoke rules ctx usual call = besideUsual (beforeUsual rules ctx call) (usual call) (afterUsual call) := by
  unfold invoke besideUsual beforeUsual afterUsual
  split
  · simp
  · split
    · split <;> simp
    · split <;> simp

theorem beforeUsual_blind (keeps : ∀ φ, P φ → φ.hits = id) (rules : TaintRules) (ctx : Context Taint)
    (call : Call Taint) : Visit.Blind P (beforeUsual rules ctx call) := by
  have source : Visit.Blind P (do
      if rules.isSourceMethod call.method then return some (← bringIn ctx call.method call.operation)
      return none : Visit Taint (Option Taint)) := by
    split
    · exact (bringIn_blind _ _ _).bind fun _ => .pure _
    · exact .pure _
  unfold beforeUsual
  dsimp only
  split
  · exact (Visit.Blind.setOrigins _ _).bind fun _ => .pure _
  · split
    · exact (recordHits_blind keeps _ _ _).bind fun _ => source
    · exact source

theorem afterUsual_blind (call : Call Taint) (v : Taint) : Visit.Blind P (afterUsual call v) := by
  unfold afterUsual
  split
  · exact passOn_blind _ _
  · exact (Visit.Blind.setOrigins _ _).bind fun _ => .pure _

end TaintAnalysis

theorem taint_blind {P : Replacement Taint → Prop} (rules : TaintRules) (keeps : ∀ φ, P φ → φ.hits = id) :
    (taint rules).Blind P where
  reference _ op e := TaintAnalysis.reference_blind rules _ op e
  assign _ op e v := TaintAnalysis.assign_blind op e v
  create _ op _ := TaintAnalysis.passOn_blind op _
  createArray _ _ := .pure _
  binary _ op _ _ _ := TaintAnalysis.passOn_blind op _
  convert op v := TaintAnalysis.passOn_blind op v
  invoke ctx call := ⟨TaintAnalysis.beforeUsual rules ctx call, TaintAnalysis.afterUsual call,
    TaintAnalysis.beforeUsual_blind keeps rules ctx call, TaintAnalysis.afterUsual_blind call,
    fun usual => TaintAnalysis.invoke_eq rules ctx usual call⟩

theorem pointsTo_apart : pointsTo.Apart := pointsTo_blind _

theorem copies_apart : copies.Apart := copies_blind _

theorem contents_apart : contents.Apart := contents_blind _

theorem taint_apart (rules : TaintRules) : (taint rules).Apart :=
  taint_blind rules fun _ => Replacement.hits_of_isLedger

end Analysis

end Dataflow
