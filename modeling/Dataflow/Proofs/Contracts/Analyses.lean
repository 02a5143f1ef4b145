import Dataflow.Proofs.Accord.Calls
import Dataflow.Proofs.Contents.Settling
import Dataflow.Proofs.Contracts.Joins
import Dataflow.Proofs.Copies.Settling
import Dataflow.Proofs.PointsTo.Settling
import Dataflow.Proofs.Taint.Settling

/-!
# The analyses use constructors rightly

The four analyses with every value made by a constructor: where storage is read, where something is
stored, and where paths meet.

## What is proved

From valid values each kind of operation makes valid values and asks no constructor for more than
there is (`Analysis.Upright`). Values of copies, contents and taint are all valid; a class of copies
is left only by one of several members. So runs over bodies, to any depth of calls, come to the same with and without
constructors (`Analysis.Upright.sound`).
-/

namespace Dataflow

variable {V : Type}

/-! ### What analyses owe -/

/-- The accord that values are valid, in states and out of them. -/
def Accord.ofValid (valid : V → Prop) (ledger : Ledger V → Prop) (failure : Failure → Ledger V → Prop) : Accord V :=
  ⟨State.Each valid, valid, ledger, failure⟩

namespace Analysis

/-- What an analysis owes so that its values stay valid without breaking a rule, and so that a second one which makes
them by constructors does the same. -/
structure Upright (A B : Analysis V) (C : Constructors V) (valid : V → Prop) : Prop where
  /-- Joins. -/
  upholds : C.Upholds A.domain valid
  /-- The hooks. -/
  hooks : ∀ {ledger : Ledger V → Prop} {failure : Failure → Ledger V → Prop},
    (∀ l, ledger l → failure .cancelled l) → ∀ ctx, (Accord.ofValid valid ledger failure).Hooks A B ctx
  /-- What a body starts with. -/
  parameters : ∀ ctx : Context V, ∀ e ∈ initialEntities ctx, ∃ v, A.parameterValue e = .ok v ∧ valid v
  /-- Writes. -/
  write : ∀ e v s, State.Each valid s → valid v →
    ∃ t, A.write e v s = .ok t ∧ B.write e v s = .ok t ∧ State.Each valid t
  /-- What unknown code leaves. -/
  escaped : ∀ e, valid (A.escapedValue e)
  /-- What a summary says. -/
  summary : ∀ v, valid v → valid (A.summaryValue v)

end Analysis

/-! ### Reads and stores through constructors -/

namespace Constructors

variable (C : Constructors V)

/-- A read of an entity, or of storage that no entity stands for. -/
def read (unknown : V) (e : Option Entity) : Visit V V := do
  match e with
  | some e => Visit.check (C.valueOr (← Visit.state) e)
  | none => return unknown

/-- A store into an entity, or into storage that no entity stands for. -/
def store (e : Option Entity) (v : V) : Visit V V := do
  match e with
  | some e => Visit.update (C.write e v)
  | none => pure ()
  return v

/-- Values that nothing is asked of. -/
def ofDomain (D : Domain V) : Constructors V where
  merge := fun a b => .ok (D.merge a b)
  widen := fun a b => .ok (D.widen a b)
  missing := fun e => .ok (D.missing e)

theorem ofDomain_upholds (D : Domain V) : (ofDomain D).Upholds D fun _ => True where
  merge := fun _ _ _ _ => ⟨rfl, trivial⟩
  widen := fun _ _ _ _ => ⟨rfl, trivial⟩
  missing := fun _ => ⟨rfl, trivial⟩

variable {C} {valid : V → Prop} {ledger : Ledger V → Prop} {failure : Failure → Ledger V → Prop}

/-- A computation of a state that succeeds in both ways. -/
theorem steps_of_ok {c d : Checked (State V)} {t : State V} (hc : c = .ok t) (hd : d = .ok t) (ht : State.Each valid t) :
    (Accord.ofValid valid ledger failure).Steps c d := by
  subst hc hd
  exact ⟨rfl, fun s hs => Except.ok.inj hs ▸ ht, fun v hv => by cases hv⟩

theorem read_agrees {A : Analysis V} (U : C.Upholds A.domain valid) {unknown : V} (hunknown : valid unknown) (e : Option Entity) :
    (Accord.ofValid valid ledger failure).Agree
      (do
        match e with
        | some e => return State.valueOr A.domain (← Visit.state) e
        | none => return unknown)
      (C.read unknown e) valid := by
  cases e with
  | none => exact Accord.agree_pure hunknown
  | some e =>
    refine Accord.agree_state_bind fun s hs => ?_
    obtain ⟨found, hfound⟩ := U.valueOr hs e
    rw [found]
    exact Accord.agree_pure hfound

theorem store_agrees {A : Analysis V} (U : C.Upholds A.domain valid) {v : V} (hv : valid v) (e : Option Entity) :
    (Accord.ofValid valid ledger failure).Agree
      (do
        match e with
        | some e => Visit.update fun s => .ok (State.write A.domain e v s)
        | none => pure ()
        return v)
      (C.store e v) valid := by
  cases e with
  | none => exact Accord.agree_pure hv
  | some e =>
    refine (Accord.agree_update fun s hs => ?_).bind fun _ _ => Accord.agree_pure hv
    obtain ⟨written, good⟩ := U.write hs hv e
    exact steps_of_ok rfl written good

end Constructors

namespace Analysis

variable {ledger : Ledger V → Prop} {failure : Failure → Ledger V → Prop}

/-! ### The points-to analysis -/

/-- The points-to analysis with all values made by constructors. A captured location is one operation, and so needs none. -/
def pointsToChecked : Analysis PointsTo :=
  { pointsTo with
    write := Constructors.pointsTo.write
    reference := fun _ op e => Constructors.pointsTo.read (pointsTo.unknownValue op) e
    assign := fun _ _ e v => Constructors.pointsTo.store e v }

theorem noLocation_valid : PointsTo.noLocation.Valid := ⟨Ascending.singleton _, by simp, rfl, fun _ => by simp⟩

theorem nullLocation_valid : PointsTo.nullLocation.Valid :=
  ⟨Ascending.singleton _, by simp, rfl, fun h => by cases h⟩

theorem unknown_valid (isReference : Bool) : (PointsToAnalysis.unknown isReference).Valid := by
  cases isReference with
  | true => trivial
  | false => exact noLocation_valid

theorem allocation_agrees {ledger : Ledger PointsTo → Prop} {failure : Failure → Ledger PointsTo → Prop}
    (ctx : Context PointsTo) (op : Operation) :
    (Accord.ofValid PointsTo.Valid ledger failure).Agree (PointsToAnalysis.allocation ctx op)
      (PointsToAnalysis.allocation ctx op) PointsTo.Valid :=
  Accord.agree_check (fun _ h => PointsTo.ofLocation_valid h) fun _ h => by cases h

theorem parameterValue_valid {e : Entity} {v : PointsTo} (h : PointsToAnalysis.parameterValue e = .ok v) : v.Valid := by
  unfold PointsToAnalysis.parameterValue at h
  split at h
  · exact Except.ok.inj h ▸ noLocation_valid
  · obtain ⟨l, -, hl⟩ := Checked.bind_eq_ok.1 h
    exact PointsTo.ofLocation_valid hl

theorem pointsTo_upright : pointsTo.Upright pointsToChecked Constructors.pointsTo PointsTo.Valid where
  upholds := Constructors.pointsTo_upholds
  hooks := fun stop ctx =>
    { bottom := trivial
      unknown := fun op => unknown_valid _
      literal := by
        intro op l
        cases l with
        | null => exact nullLocation_valid
        | _ => exact noLocation_valid
      captured := fun op v _ => ⟨Ascending.singleton _, by simp⟩
      reference := fun op e => Constructors.read_agrees (A := pointsTo) Constructors.pointsTo_upholds (unknown_valid _) e
      assign := fun op e v hv => Constructors.store_agrees (A := pointsTo) Constructors.pointsTo_upholds hv e
      create := fun op _ _ => allocation_agrees ctx op
      createArray := fun op => allocation_agrees ctx op
      binary := by
        intro op operator l r _ _
        show Accord.Agree _ (PointsToAnalysis.binary ctx op operator) (PointsToAnalysis.binary ctx op operator) _
        unfold PointsToAnalysis.binary
        split
        · exact allocation_agrees ctx op
        · exact Accord.agree_pure noLocation_valid
      convert := by
        intro op v hv
        refine Accord.agree_pure ?_
        split
        · exact hv
        · exact noLocation_valid
      invoke := fun _ _ usuals call takes => usuals call takes
      forget := fun e s hs => Constructors.steps_of_ok rfl rfl (State.Each.erase hs e)
      cancelled := stop }
  parameters := by
    intro ctx e he
    obtain ⟨v, hv⟩ := exists_parameterValue he
    exact ⟨v, hv, parameterValue_valid hv⟩
  write := fun e v s hs hv =>
    have ⟨written, good⟩ := Constructors.pointsTo_upholds.write hs hv e
    ⟨_, rfl, written, good⟩
  escaped := fun e => unknown_valid _
  summary := by
    intro v hv
    show (PointsToAnalysis.summaryValue v).Valid
    unfold PointsToAnalysis.summaryValue
    split
    · exact hv
    · exact (PointsTo.unknownWith_isReference _).valid

/-! ### The copy analysis -/

/-- The copy analysis with all values made by constructors. -/
def copiesChecked : Analysis CopyClass :=
  { copies with reference := fun _ op e => Constructors.copies.read (copies.unknownValue op) e }

theorem covered_univ (s : State CopyClass) : classes.Covered Set.univ s :=
  fun _ _ _ => ⟨Set.mem_univ _, Set.subset_univ _⟩

theorem exists_write (e : Entity) (v : CopyClass) (s : State CopyClass) : ∃ t, CopyAnalysis.write e v s = .ok t :=
  have ⟨t, ht, _⟩ := CopyAnalysis.write_covered (covered_univ s) (Set.mem_univ e) (Set.subset_univ v.mentioned)
  ⟨t, ht⟩

theorem exists_forget (e : Entity) (s : State CopyClass) : ∃ t, CopyAnalysis.forget e s = .ok t :=
  have ⟨t, ht, _⟩ := CopyAnalysis.forget_covered (covered_univ s) (Set.mem_univ e)
  ⟨t, ht⟩

theorem copies_upright : copies.Upright copiesChecked Constructors.copies fun _ => True where
  upholds := Constructors.copies_upholds
  hooks := fun stop ctx =>
    { bottom := trivial
      unknown := fun _ => trivial
      literal := fun _ _ => trivial
      captured := fun _ _ _ => trivial
      reference := fun op e => Constructors.read_agrees (A := copies) Constructors.copies_upholds trivial e
      assign := by
        intro op e v _
        cases e with
        | none => exact Accord.agree_pure trivial
        | some e =>
          refine (Accord.agree_update fun s _ => ?_).bind fun _ _ => ?_
          · obtain ⟨t, ht⟩ := exists_write e v s
            exact Constructors.steps_of_ok ht ht fun _ _ _ => trivial
          · exact Accord.agree_state_bind fun s _ => Accord.agree_pure trivial
      create := fun _ _ _ => Accord.agree_pure trivial
      createArray := fun _ => Accord.agree_pure trivial
      binary := fun _ _ _ _ _ _ => Accord.agree_pure trivial
      convert := fun _ _ _ => Accord.agree_pure trivial
      invoke := fun _ _ usuals call takes => usuals call takes
      forget := fun e s _ =>
        have ⟨_, ht⟩ := exists_forget e s
        Constructors.steps_of_ok ht ht fun _ _ _ => trivial
      cancelled := stop }
  parameters := fun _ _ _ => ⟨_, rfl, trivial⟩
  write := fun e v s _ _ =>
    have ⟨t, ht⟩ := exists_write e v s
    ⟨t, ht, ht, fun _ _ _ => trivial⟩
  escaped := fun _ => trivial
  summary := fun _ _ => trivial

/-! ### The analysis of contents -/

/-- A store into an entity and its copies. -/
def ContentAnalysis.assignChecked (ctx : Context Content) (op : Operation) (target : Option Entity) (v : Content) :
    Visit Content Content := do
  match target with
  | some e =>
    let s ← Visit.check (Constructors.contents.write e v (← Visit.state))
    Visit.setState ((copiesAfter ctx op e).foldl (fun s copy => s.insert copy v) s)
  | none => pure ()
  return v

/-- The analysis of contents with all values made by constructors. -/
def contentsChecked : Analysis Content :=
  { contents with
    write := Constructors.contents.write
    reference := fun _ op e => Constructors.contents.read (contents.unknownValue op) e
    assign := ContentAnalysis.assignChecked }

theorem contents_upright : contents.Upright contentsChecked Constructors.contents fun _ => True where
  upholds := Constructors.contents_upholds
  hooks := fun stop ctx =>
    { bottom := trivial
      unknown := fun _ => trivial
      literal := fun _ _ => trivial
      captured := fun _ _ _ => trivial
      reference := fun op e => Constructors.read_agrees (A := contents) Constructors.contents_upholds trivial e
      assign := by
        intro op e v _
        cases e with
        | none => exact Accord.agree_pure trivial
        | some e =>
          refine Accord.agree_state_bind fun s hs => ?_
          rw [(Constructors.contents_upholds.write hs trivial e).1]
          exact (Accord.agree_setState fun _ _ _ => trivial).bind fun _ _ => Accord.agree_pure trivial
      create := fun _ _ _ => Accord.agree_pure trivial
      createArray := fun _ => Accord.agree_pure trivial
      binary := by
        intro op operator l r _ _
        exact Accord.agree_check (fun _ _ => trivial) fun v hv => by
          rw [Content.binary_eq] at hv
          cases hv
      convert := fun _ _ _ => Accord.agree_pure trivial
      invoke := fun _ _ usuals call takes => usuals call takes
      forget := fun e s _ => Constructors.steps_of_ok rfl rfl fun _ _ _ => trivial
      cancelled := stop }
  parameters := fun _ _ _ => ⟨_, rfl, trivial⟩
  write := fun e v s hs hv =>
    have ⟨written, good⟩ := Constructors.contents_upholds.write hs hv e
    ⟨_, rfl, written, good⟩
  escaped := fun _ => trivial
  summary := fun _ _ => trivial

/-! ### The taint analysis -/

namespace TaintAnalysis

variable {ledger : Ledger Taint → Prop} {failure : Failure → Ledger Taint → Prop}
variable {rules : TaintRules} {ctx : Context Taint}

/-- Nothing is said of values and states, so whatever is noted aside keeps to it. -/
def free (ledger : Ledger Taint → Prop) (failure : Failure → Ledger Taint → Prop) : Accord Taint :=
  Accord.ofValid (fun _ => True) ledger failure

theorem setOrigins_agrees (op : OperationId) (origins : FinSet SymbolAccess) :
    (free ledger failure).Agree (Visit.setOrigins op origins) (Visit.setOrigins op origins) fun _ => True :=
  Accord.agree_modifyNotes (fun _ => rfl) fun _ => rfl

/-- What is noted is read. -/
theorem noted_agrees {α : Type} (f : Notes Taint → α) :
    (free ledger failure).Agree (do return f (← Visit.notes)) (do return f (← Visit.notes)) fun _ => True :=
  Accord.agree_notes_bind fun _ => Accord.agree_pure trivial

theorem bringIn_agrees (symbol : Symbol) (op : Operation) :
    (free ledger failure).Agree (bringIn ctx symbol op) (bringIn ctx symbol op) fun _ => True :=
  (setOrigins_agrees _ _).bind fun _ _ => Accord.agree_pure trivial

theorem passOn_agrees (op : Operation) (v : Taint) :
    (free ledger failure).Agree (passOn op v) (passOn op v) fun _ => True :=
  (noted_agrees _).bind fun _ _ => (setOrigins_agrees _ _).bind fun _ _ => Accord.agree_pure trivial

theorem reference_agrees (op : Operation) (e : Option Entity) :
    (free ledger failure).Agree (reference rules ctx op e) (reference rules ctx op e) fun _ => True := by
  have read : (free ledger failure).Agree (readEntity op e) (readEntity op e) fun _ => True := by
    refine (noted_agrees _).bind fun _ _ => (setOrigins_agrees _ _).bind fun _ _ => ?_
    cases e with
    | none => exact Accord.agree_pure trivial
    | some e => exact Accord.agree_state_bind fun s _ => Accord.agree_pure trivial
  unfold reference
  split
  · split
    · exact bringIn_agrees _ op
    · exact read
  · exact read

theorem assign_agrees (op : Operation) (target : Option Entity) (v : Taint) :
    (free ledger failure).Agree (assign op target v) (assign op target v) fun _ => True := by
  have store : ∀ origins, (free ledger failure).Agree
      (do
        match target with
        | some e =>
          Visit.addEntityOrigins e origins
          Visit.setState (State.write Domain.taint e v (← Visit.state))
        | none => pure ()
        Visit.setOrigins op.id origins
        return v)
      (do
        match target with
        | some e =>
          Visit.addEntityOrigins e origins
          Visit.setState (State.write Domain.taint e v (← Visit.state))
        | none => pure ()
        Visit.setOrigins op.id origins
        return v) fun _ => True := by
    intro origins
    have note : (free ledger failure).Agree (do Visit.setOrigins op.id origins; return v)
        (do Visit.setOrigins op.id origins; return v) fun _ => True :=
      (setOrigins_agrees _ _).bind fun _ _ => Accord.agree_pure trivial
    cases target with
    | none => exact note
    | some e =>
      refine Accord.Agree.bind (P := fun _ => True) (Accord.agree_modifyNotes ?_ ?_) fun _ _ => ?_
      · exact fun _ => rfl
      · exact fun _ => rfl
      · exact Accord.agree_state_bind fun s _ => (Accord.agree_setState fun _ _ _ => trivial).bind fun _ _ => note
  unfold assign
  cases storedValue? op with
  | none => exact store _
  | some value => exact (noted_agrees _).bind fun origins _ => store origins

theorem recordHits_agrees (call : Call Taint) :
    (free ledger failure).Agree (recordHits rules ctx call) (recordHits rules ctx call) fun _ => True := by
  refine Accord.agree_forM fun a _ => ?_
  unfold recordHit
  dsimp only
  split
  · exact (noted_agrees _).bind fun _ _ => Accord.agree_modifyHits _
  · exact Accord.agree_pure trivial

theorem invoke_agrees {usual usual' : Call Taint → Visit Taint Taint}
    (usuals : (free ledger failure).Handles usual usual') {call : Call Taint} (takes : (free ledger failure).Takes call) :
    (free ledger failure).Agree (invoke rules ctx usual call) (invoke rules ctx usual' call) fun _ => True := by
  -- What happens once hits are noted.
  have rest : (free ledger failure).Agree
      (do
        if rules.isSourceMethod call.method then bringIn ctx call.method call.operation
        else
          let v ← usual call
          if v = .tainted then passOn call.operation v
          else
            Visit.setOrigins call.operation.id FinSet.empty
            return v)
      (do
        if rules.isSourceMethod call.method then bringIn ctx call.method call.operation
        else
          let v ← usual' call
          if v = .tainted then passOn call.operation v
          else
            Visit.setOrigins call.operation.id FinSet.empty
            return v) fun _ => True := by
    split
    · exact bringIn_agrees _ _
    · refine (usuals call takes).bind fun v _ => ?_
      split
      · exact passOn_agrees _ v
      · exact (setOrigins_agrees _ _).bind fun _ _ => Accord.agree_pure trivial
  unfold invoke
  dsimp only
  split
  · exact (setOrigins_agrees _ _).bind fun _ _ => Accord.agree_pure trivial
  · split
    · exact (recordHits_agrees call).bind fun _ _ => rest
    · exact rest

end TaintAnalysis

/-- The taint analysis knows no constructors that could be used wrongly. -/
theorem taint_upright (rules : TaintRules) :
    (taint rules).Upright (taint rules) (Constructors.ofDomain Domain.taint) fun _ => True where
  upholds := Constructors.ofDomain_upholds _
  hooks := fun stop _ =>
    { bottom := trivial
      unknown := fun _ => trivial
      literal := fun _ _ => trivial
      captured := fun _ _ _ => trivial
      reference := fun op e => TaintAnalysis.reference_agrees op e
      assign := fun op e v _ => TaintAnalysis.assign_agrees op e v
      create := fun op _ _ => TaintAnalysis.passOn_agrees op _
      createArray := fun _ => Accord.agree_pure trivial
      binary := fun op _ _ _ _ _ => TaintAnalysis.passOn_agrees op _
      convert := fun op v _ => TaintAnalysis.passOn_agrees op v
      invoke := fun _ _ usuals _ takes => TaintAnalysis.invoke_agrees usuals takes
      forget := fun _ _ _ => Constructors.steps_of_ok rfl rfl fun _ _ _ => trivial
      cancelled := stop }
  parameters := fun _ _ _ => ⟨_, rfl, trivial⟩
  write := fun _ _ _ _ _ => ⟨_, rfl, rfl, fun _ _ _ => trivial⟩
  escaped := fun _ => trivial
  summary := fun _ _ => trivial

/-! ### Whole runs -/

namespace Upright

variable {A B : Analysis V} {C : Constructors V} {valid : V → Prop} (U : A.Upright B C valid)
include U

theorem passes (cancel : ∀ l, ledger l → ledger { l with cancelled := true }) :
    (Accord.ofValid valid ledger failure).Passes A B where
  write := by
    intro e v s hs hv
    obtain ⟨t, ht, ht', good⟩ := U.write e v s hs hv
    exact Constructors.steps_of_ok ht ht' good
  escaped := U.escaped
  value := fun s e hs => (U.upholds.valueOr hs e).2
  mentioned := fun s e v hs hv => hs e v hv
  summary := U.summary
  cancel := cancel

/-- A body starts in a state of valid values, if its caller does not determine it. -/
theorem exists_defaultEntry (ctx : Context V) : ∃ s, A.defaultEntry ctx = .ok s ∧ State.Each valid s := by
  have steps : ∀ (l : List Entity) (s : State V), (∀ e ∈ l, e ∈ initialEntities ctx) → State.Each valid s →
      ∃ t, l.foldlM (fun s e => do return s.insert e (← A.parameterValue e)) s = (.ok t : Checked (State V)) ∧
        State.Each valid t := by
    intro l
    induction l with
    | nil => exact fun s _ hs => ⟨s, rfl, hs⟩
    | cons e l ih =>
      intro s hl hs
      obtain ⟨v, hv, good⟩ := U.parameters ctx e (hl e List.mem_cons_self)
      obtain ⟨t, ht, hgood⟩ := ih (s.insert e v) (fun a ha => hl a (List.mem_cons_of_mem _ ha)) (State.Each.insert hs e good)
      refine ⟨t, ?_, hgood⟩
      rw [List.foldlM_cons, hv]
      exact ht
  exact steps _ State.empty (fun _ he => he) State.each_empty

theorem joins [DecidableEq V] (endless : ∀ l, ledger l → failure .endless l) {ctx : Context V}
    (hentry : ∀ s, ctx.entry = some s → State.Each valid s) : (Accord.ofValid valid ledger failure).Joins A ctx where
  empty := State.each_empty
  initial := by
    cases entry : ctx.entry with
    | some s =>
      have start : A.initialState ctx = .ok s := by
        unfold initialState
        rw [entry]
      exact Constructors.steps_of_ok start start (hentry s entry)
    | none =>
      obtain ⟨s, hs, good⟩ := U.exists_defaultEntry ctx
      have start : A.initialState ctx = .ok s := by
        unfold initialState
        rw [entry]
        exact hs
      exact Constructors.steps_of_ok start start good
  merge := fun s t hs ht => (U.upholds.mergeStates hs ht).2
  widen := fun s t hs ht => (U.upholds.widenStates hs ht).2
  returned := fun v w hv hw => (U.upholds.merge v w hv hw).2
  endless := endless

theorem entry {call : Call V} (callee : Graph) {s : State V} (hcall : ∀ a ∈ call.operands, valid a.value)
    (hs : State.Each valid s) : State.Each valid (A.calleeEntry call callee s) := by
  refine calleeEntry_induction ?_ fun t e a ha ht => State.Each.insert ht e ?_
  · split
    · exact State.Each.filter hs _
    · exact State.each_empty
  · unfold passedValue
    split
    · exact hcall a ha
    · exact (U.upholds.missing e).2

/-- No rule is broken but that counts fit a word. -/
theorem sound [DecidableEq V] :
    (Accord.ofValid valid (Ledger.Files (Solution.Lasts (State.Each valid) valid)) fun e _ =>
      ∀ v, e = .violated v → v = .countOverflow).Sound A B C.joining where
  files := fun _ => Iff.rfl
  hooks := U.hooks fun _ _ _ h => by cases h
  joins := fun ctx hentry => U.joins (fun _ _ _ h => by cases h) hentry
  joined := fun ctx => U.upholds.joined rfl rfl rfl
  passes := U.passes fun _ h => h
  entry := fun call callee s hcall hs => U.entry callee hcall hs
  overflow := fun _ _ v h => (Failure.violated.inj h).symm

/-- Solutions hold valid values only. -/
theorem lasts [DecidableEq V] {ctx : Context V} (hentry : ∀ s, ctx.entry = some s → State.Each valid s)
    {ledger ledger' : Ledger V} (files : ledger.Files (Solution.Lasts (State.Each valid) valid)) {sol : Solution V}
    (h : (A.solve ctx).run ledger = (.ok sol, ledger')) : sol.Lasts (State.Each valid) valid := by
  obtain ⟨-, ends⟩ := Accord.solveBy_agrees U.sound ctx hentry ledger files
  rw [h] at ends
  exact ends.2.1

/-- The analysis by constructors does the same as the analysis itself, and breaks no rule. -/
theorem run_solveBy [DecidableEq V] {ctx : Context V} (hentry : ctx.entry = none) (cancelled : Bool) :
    ((A.over B).solveBy C.joining ctx).run (Ledger.start cancelled) = (A.solve ctx).run (Ledger.start cancelled) ∧
      ∀ v ledger, (A.solve ctx).run (Ledger.start cancelled) = (.error (.violated v), ledger) → v = .countOverflow := by
  obtain ⟨same, ends⟩ := Accord.solveBy_agrees U.sound ctx (fun s hs => by rw [hentry] at hs; cases hs) _
    (Ledger.files_start _ cancelled)
  refine ⟨same, fun v ledger h => ?_⟩
  rw [h] at ends
  exact ends v rfl

end Upright

end Analysis

end Dataflow
