import Dataflow.Analysis.Taint
import Dataflow.Proofs.Accord.Moments
import Dataflow.Proofs.Calls.Bounds
import Dataflow.Proofs.Taint.Hits

/-!
# What does not touch the hits of a method

Hits are noted by calls only. Whatever else an operation does leaves the values of operations and the
hits alone; and a call that is followed brings in the hits of other methods at most, if callees find no
hits in the body of the method in question.

## The notions

* `Fine`: what is on file has no hits of a method, which is fixed here (`root`), and hits are kept under
  their keys.
* `Spares`: values of operations and hits of the method are as before.
* `Quiet`: a visit that spares them.

## What is proved

All own steps of operations but calls are quiet (`quiet_own`), and so is the usual way to handle calls, if
callees answer with solutions that have no hits of the method (`quiet_handleCall`). A method that is under
way is not followed again; so callees do answer so, by induction on the length of the chain of calls
(`answers_solveWithin`).
-/

namespace Dataflow.Analysis.TaintAnalysis

variable {α β : Type} {root : Symbol} {m m' m'' : Machine Taint} {P : α → Prop} {Q : β → Prop}

/-- A solution has no hits in the body of a method. -/
def Foreign (root : Symbol) (sol : Solution Taint) : Prop :=
  ∀ hit ∈ sol.hits.hits, hit.location.accessingMethod ≠ root

/-- No solution on file has hits of the method, and hits are kept under their keys. -/
structure Fine (root : Symbol) (m : Machine Taint) : Prop where
  /-- The hits. -/
  keyed : m.notes.hits.Keyed
  /-- The files. -/
  files : m.ledger.Files (Foreign root)

/-- The values of operations and the hits of the method are the same. -/
structure Spares (root : Symbol) (m m' : Machine Taint) : Prop where
  /-- The machine is fine. -/
  fine : Fine root m'
  /-- The values. -/
  values : m'.notes.values = m.notes.values
  /-- The hits. -/
  hits : ∀ i c k, m'.notes.hits.Has i (root, c, k) ↔ m.notes.hits.Has i (root, c, k)

theorem Spares.trans (h : Spares root m m') (h' : Spares root m' m'') : Spares root m m'' :=
  ⟨h'.fine, h'.values.trans h.values, fun i c k => (h'.hits i c k).trans (h.hits i c k)⟩

/-- A visit that spares values and hits, and yields something with the property `P`. -/
def Quiet (root : Symbol) (x : Visit Taint α) (P : α → Prop) : Prop :=
  ∀ m, Fine root m → Visit.Ensures x m fun a m' => Spares root m m' ∧ P a

/-! ### Steps -/

theorem quiet_pure {a : α} (h : P a) : Quiet root (pure a) P := fun m hm => by
  rw [Visit.ensures_pure]
  exact ⟨⟨hm, rfl, fun _ _ _ => .rfl⟩, h⟩

theorem quiet_throw (e : Failure) : Quiet root (throw e) P := fun m _ => Visit.ensures_throw e m _

theorem Quiet.bind {x : Visit Taint α} {f : α → Visit Taint β} (hx : Quiet root x P) (hf : ∀ a, P a → Quiet root (f a) Q) :
    Quiet root (x >>= f) Q := by
  intro m hm
  rw [Visit.ensures_bind]
  refine (hx m hm).mono fun a m' h => ?_
  obtain ⟨first, ha⟩ := h
  refine (hf a ha m' first.fine).mono fun b m'' h => ?_
  exact ⟨first.trans h.1, h.2⟩

/-- What is read of the machine. -/
theorem quiet_read (f : Machine Taint → α) : Quiet root (do return f (← get)) fun _ => True := fun m hm => by
  rw [Visit.ensures_bind, Visit.ensures_get, Visit.ensures_pure]
  exact ⟨⟨hm, rfl, fun _ _ _ => .rfl⟩, trivial⟩

theorem quiet_setState (s : State Taint) : Quiet root (Visit.setState s) fun _ => True := fun m hm => by
  rw [Visit.ensures_setState]
  exact ⟨⟨⟨hm.keyed, hm.files⟩, rfl, fun _ _ _ => .rfl⟩, trivial⟩

theorem quiet_check (c : Checked α) : Quiet root (Visit.check c) fun _ => True := by
  cases c with
  | ok a => exact quiet_pure trivial
  | error v => exact quiet_throw _

theorem quiet_update (f : State Taint → Checked (State Taint)) : Quiet root (Visit.update f) fun _ => True :=
  (quiet_read _).bind fun _ _ => (quiet_check _).bind fun _ _ => quiet_setState _

theorem quiet_checkCancelled : Quiet root Visit.checkCancelled fun _ => True := fun m hm => by
  rw [Visit.ensures_checkCancelled]
  exact fun _ => ⟨⟨hm, rfl, fun _ _ _ => .rfl⟩, trivial⟩

/-- Notes change, but not those of values and hits. -/
theorem quiet_modifyNotes {f : Notes Taint → Notes Taint} (values : ∀ n, (f n).values = n.values)
    (hits : ∀ n, (f n).hits = n.hits) : Quiet root (Visit.modifyNotes f) fun _ => True := fun m hm => by
  rw [Visit.ensures_modifyNotes]
  refine ⟨⟨⟨?_, hm.files⟩, values _, fun i c k => ?_⟩, trivial⟩
  · rw [hits]
    exact hm.keyed
  · rw [hits]

theorem quiet_forM {l : List β} {f : β → Visit Taint PUnit} (h : ∀ b ∈ l, Quiet root (f b) fun _ => True) :
    Quiet root (l.forM f) fun _ => True := by
  induction l with
  | nil => exact quiet_pure trivial
  | cons b l ih => exact (h b List.mem_cons_self).bind fun _ _ => ih fun c hc => h c (List.mem_cons_of_mem _ hc)

/-- A hit of another method is noted. -/
theorem quiet_record {hit : SinkHit} (h : hit.location.accessingMethod ≠ root) (i : OperationId) :
    Quiet root (Visit.modifyHits (·.record i hit)) fun _ => True := fun m hm => by
  rw [Visit.ensures_modifyHits]
  refine ⟨⟨⟨hm.keyed.record i hit, hm.files⟩, rfl, fun j c k => ?_⟩, trivial⟩
  rw [HitLog.has_record hm.keyed]
  refine or_iff_right fun hk => h ?_
  exact (congrArg Prod.fst hk.2).symm

/-- The hits of a callee are taken over. -/
theorem quiet_absorb {sol : Solution Taint} (h : Foreign root sol) (i : OperationId) :
    Quiet root (Visit.modifyHits (·.absorb i sol.hits)) fun _ => True := fun m hm => by
  rw [Visit.ensures_modifyHits]
  refine ⟨⟨⟨hm.keyed.absorb i sol.hits, hm.files⟩, rfl, fun j c k => ?_⟩, trivial⟩
  rw [HitLog.has_absorb hm.keyed]
  refine or_iff_right fun hk => ?_
  obtain ⟨-, hit, hmem, hkey⟩ := hk
  exact h hit hmem (congrArg Prod.fst hkey)

/-! ### Notes -/

theorem quiet_recordEntity (op : OperationId) (e : Option Entity) : Quiet root (Visit.recordEntity op e) fun _ => True :=
  quiet_modifyNotes (fun _ => rfl) fun _ => rfl

theorem quiet_recordBefore (op : OperationId) : Quiet root (Visit.recordBefore op) fun _ => True :=
  (quiet_read _).bind fun _ _ => quiet_modifyNotes (fun _ => rfl) fun _ => rfl

theorem quiet_recordReturn (op : OperationId) (v : Taint) : Quiet root (Visit.recordReturn op v) fun _ => True :=
  quiet_modifyNotes (fun _ => rfl) fun _ => rfl

theorem quiet_bindCapture (capture : CaptureId) (e : Entity) : Quiet root (Visit.bindCapture capture e) fun _ => True :=
  quiet_modifyNotes (fun _ => rfl) fun _ => rfl

theorem quiet_setOrigins (op : OperationId) (origins : FinSet SymbolAccess) :
    Quiet root (Visit.setOrigins op origins) fun _ => True :=
  quiet_modifyNotes (fun _ => rfl) fun _ => rfl

theorem quiet_addEntityOrigins (e : Entity) (origins : FinSet SymbolAccess) :
    Quiet root (Visit.addEntityOrigins e origins) fun _ => True :=
  quiet_modifyNotes (fun _ => rfl) fun _ => rfl

theorem quiet_resolve (op : Operation) (owner : Option PointsTo) (indices : List ElementIndex) :
    Quiet root (Visit.resolve op owner indices) fun _ => True := by
  unfold Visit.resolve
  refine (quiet_read _).bind fun n _ => ?_
  rcases n.resolver.resolve op owner indices with ⟨e, resolver⟩
  refine (quiet_modifyNotes (f := fun n => { n with resolver }) (fun _ => rfl) fun _ => rfl).bind fun _ _ => ?_
  exact (quiet_recordEntity op.id e).bind fun _ _ => quiet_pure trivial

/-! ### What operations do themselves -/

variable {rules : TaintRules} {ctx : Context Taint} {usual : Call Taint → Visit Taint Taint}

theorem quiet_bringIn (symbol : Symbol) (op : Operation) : Quiet root (bringIn ctx symbol op) fun _ => True :=
  (quiet_setOrigins _ _).bind fun _ _ => quiet_pure trivial

theorem quiet_passOn (op : Operation) (v : Taint) : Quiet root (passOn op v) fun _ => True :=
  (quiet_read _).bind fun _ _ => (quiet_setOrigins _ _).bind fun _ _ => quiet_pure trivial

theorem quiet_readEntity (op : Operation) (e : Option Entity) : Quiet root (readEntity op e) fun _ => True := by
  refine (quiet_read _).bind fun _ _ => (quiet_setOrigins _ _).bind fun _ _ => ?_
  cases e with
  | none => exact quiet_pure trivial
  | some e => exact (quiet_read _).bind fun _ _ => quiet_pure trivial

theorem quiet_reference (op : Operation) (e : Option Entity) : Quiet root (reference rules ctx op e) fun _ => True := by
  unfold reference
  split
  · split
    · exact quiet_bringIn _ op
    · exact quiet_readEntity op e
  · exact quiet_readEntity op e

theorem quiet_assign (op : Operation) (target : Option Entity) (v : Taint) : Quiet root (assign op target v) fun _ => True := by
  have note : ∀ origins, Quiet root (do Visit.setOrigins op.id origins; return v) fun _ => True := fun origins =>
    (quiet_setOrigins _ origins).bind fun _ _ => quiet_pure trivial
  have store : ∀ e origins, Quiet root
      (do
        Visit.addEntityOrigins e origins
        Visit.setState (State.write Domain.taint e v (← Visit.state))
        Visit.setOrigins op.id origins
        return v) fun _ => True := fun e origins =>
    (quiet_addEntityOrigins e origins).bind fun _ _ =>
      (quiet_read _).bind fun _ _ => (quiet_setState _).bind fun _ _ => note origins
  unfold assign
  cases storedValue? op with
  | none =>
    cases target with
    | none => exact note _
    | some e => exact store e _
  | some value =>
    refine (quiet_read _).bind fun origins _ => ?_
    cases target with
    | none => exact note origins
    | some e => exact store e origins

/-- An operation that is a call. -/
def IsCall (op : Operation) : Prop := ∃ i method receiver args, op = .invocation i method receiver args

/-- Operations that are no calls do not touch hits, and their values are noted later. -/
theorem quiet_own {op : Operation} (h : ¬IsCall op)
    (seen : List (Seen Taint)) : Quiet root ((taint rules).own ctx usual op seen) fun _ => True := by
  have bottom : Quiet root (pure (taint rules).domain.bottom) fun _ => True := quiet_pure trivial
  have read : ∀ owner indices, Quiet root (Visit.resolve op owner indices >>= (taint rules).reference ctx op) fun _ => True :=
    fun owner indices => (quiet_resolve op owner indices).bind fun e _ => quiet_reference op e
  cases op with
  | literal i l => exact quiet_pure trivial
  | localRef i x => exact read none []
  | parameterRef i x => exact read none []
  | receiverRef i => exact read none []
  | captureRef i c => exact read none []
  | fieldRef i owner field => exact read _ []
  | elementRef i array indices =>
    match seen with
    | [] => exact bottom
    | _ :: _ => exact read _ _
  | assignment i target value =>
    match seen with
    | [] | [_] | _ :: _ :: _ :: _ => exact bottom
    | [t, v] => exact quiet_assign (.assignment i target value) t.entity v.value
  | objectCreation i args => exact quiet_passOn _ _
  | arrayCreation i dims => exact quiet_pure trivial
  | invocation i method receiver args => exact absurd ⟨i, method, receiver, args, rfl⟩ h
  | binary i operator left right =>
    match seen with
    | [] | [_] | _ :: _ :: _ :: _ => exact bottom
    | [l, r] => exact quiet_passOn _ _
  | conversion i operand =>
    match seen with
    | [] | _ :: _ :: _ => exact bottom
    | [v] => exact quiet_passOn _ _
  | capture i c value byLocation =>
    match byLocation, seen with
    | true, [] | false, [] | true, _ :: _ :: _ | false, _ :: _ :: _ => exact bottom
    | false, [v] => exact (quiet_resolve _ _ _).bind fun e _ => quiet_assign (.capture i c value false) e v.value
    | true, [v] =>
      obtain ⟨v, _ | e⟩ := v
      · exact quiet_pure trivial
      · exact (quiet_recordEntity _ _).bind fun _ _ => (quiet_bindCapture _ _).bind fun _ _ => quiet_pure trivial
  | ret i value =>
    match seen with
    | [] | _ :: _ :: _ => exact bottom
    | [v] => exact (quiet_recordReturn _ _).bind fun _ _ => quiet_pure trivial
  | invalid i => exact quiet_pure trivial

theorem quiet_leaveScope (A : Analysis Taint) (locals : List Symbol) : Quiet root (A.leaveScope locals) fun _ => True :=
  quiet_forM fun _ _ => (quiet_read _).bind fun _ _ => quiet_update _

/-! ### Calls -/

variable {A : Analysis Taint} {call : Call Taint}

theorem quiet_storeAll (l : List (Entity × Taint)) : Quiet root (A.storeAll l) fun _ => True :=
  quiet_forM fun _ _ => quiet_update _

theorem quiet_escapeReachable (config : Config) (call : Call Taint) :
    Quiet root (A.escapeReachable config call) fun _ => True :=
  (quiet_read _).bind fun _ _ => quiet_storeAll _

theorem quiet_callOpaquely (config : Config) (call : Call Taint) : Quiet root (A.callOpaquely config call) fun _ => True :=
  (quiet_storeAll _).bind fun _ _ => (quiet_escapeReachable config call).bind fun _ _ => quiet_pure trivial

theorem quiet_comeBack (sol : Solution Taint) (inContext : Bool) :
    Quiet root (A.comeBack ctx call sol inContext) fun _ => True := by
  unfold comeBack
  refine (quiet_storeAll _).bind fun _ _ => ?_
  cases inContext with
  | false => exact (quiet_escapeReachable _ _).bind fun _ _ => quiet_pure trivial
  | true =>
    cases sol.finish with
    | none => exact quiet_pure trivial
    | some exit => exact (quiet_read _).bind fun _ _ => (quiet_storeAll _).bind fun _ _ => quiet_pure trivial

theorem quiet_accepts (method : Symbol) : Quiet root (accepts ctx method) fun _ => True := by
  unfold accepts
  split
  · exact quiet_pure trivial
  · dsimp only
    split
    · refine Quiet.bind (P := fun _ => True) (fun m hm => ?_) fun _ _ => quiet_pure trivial
      unfold Visit.modifyLedger
      rw [Visit.ensures_modify]
      exact ⟨⟨⟨hm.keyed, hm.files⟩, rfl, fun _ _ _ => .rfl⟩, trivial⟩
    · exact quiet_pure trivial

/-- A run that leaves the files without hits of the method if it finds them so, and whose solution has none. -/
def Answers (root : Symbol) (r : Run Taint (Solution Taint)) : Prop :=
  ∀ ledger, ledger.Files (Foreign root) → ∀ sol after, ExceptT.run r ledger = (.ok sol, after) →
    Foreign root sol ∧ after.Files (Foreign root)

theorem quiet_solution {callee : Graph} {r : Run Taint (Solution Taint)} (answers : Answers root r) (f : Filing Taint) :
    Quiet root (solution? ctx f.find? f.store callee r) fun found => ∀ sol, found = some sol → Foreign root sol := by
  intro m hm found m' hrun
  rw [Accord.run_solution] at hrun
  split at hrun
  · rename_i sol hfiled
    obtain ⟨hfound, rfl⟩ := Prod.mk.inj hrun
    obtain rfl := Except.ok.inj hfound
    exact ⟨⟨hm, rfl, fun _ _ _ => .rfl⟩, fun t ht => Option.some.inj ht ▸ Filing.of_find? hm.files hfiled⟩
  · split at hrun
    · cases hrun
    · obtain ⟨hfound, rfl⟩ := Prod.mk.inj hrun
      obtain rfl := Except.ok.inj hfound
      exact ⟨⟨hm, rfl, fun _ _ _ => .rfl⟩, fun t ht => by cases ht⟩
    · rename_i claimed hclaim
      have files : claimed.Files (Foreign root) := by
        rw [Ledger.eq_of_reserve? hclaim]
        exact hm.files
      split at hrun
      · rename_i sol after hsolved
        obtain ⟨hfound, rfl⟩ := Prod.mk.inj hrun
        obtain rfl := Except.ok.inj hfound
        obtain ⟨foreign, files'⟩ := answers claimed files sol after hsolved
        exact ⟨⟨⟨hm.keyed, Filing.files_store files' foreign⟩, rfl, fun _ _ _ => .rfl⟩,
          fun t ht => Option.some.inj ht ▸ foreign⟩
      · cases hrun

theorem quiet_calleeSolution {solve : Context Taint → Run Taint (Solution Taint)} {callee : Graph}
    (answers : ∀ site entry, Answers root (solve (ctx.forCallee callee site entry))) (inContext : Bool) :
    Quiet root (A.calleeSolution? ctx solve call callee inContext) fun found => ∀ sol, found = some sol → Foreign root sol := by
  cases inContext with
  | true => exact (quiet_read _).bind fun _ _ => quiet_solution (answers _ _) (.inContext _)
  | false => exact quiet_solution (answers _ _) (.summary call.method)

/-- Calls are quiet if callees answer so. -/
theorem quiet_handleCall {deeper : Option (Context Taint → Run Taint (Solution Taint))}
    (answers : ∀ solve callee, deeper = some solve → ctx.isOnStack call.method = false → ctx.bodies call.method = some callee →
      ∀ site entry, Answers root (solve (ctx.forCallee callee site entry))) :
    Quiet root (A.handleCall ctx deeper call) fun _ => True := by
  have opaquely : Quiet root (A.callOpaquely ctx.config call) fun _ => True := quiet_callOpaquely ctx.config call
  unfold handleCall
  split
  · exact opaquely
  · refine (quiet_accepts call.method).bind fun accepted _ => ?_
    split
    · exact opaquely
    · split
      · rename_i solve callee away hbody
        refine quiet_checkCancelled.bind fun _ _ => ?_
        refine (quiet_calleeSolution (answers solve callee rfl away hbody) _).bind fun found hfound => ?_
        split
        · exact opaquely
        · rename_i sol
          refine (quiet_absorb (hfound sol rfl) _).bind fun _ _ => ?_
          refine Quiet.bind (P := fun _ => True) (quiet_modifyNotes ?_ ?_) fun _ _ => ?_
          · exact fun _ => rfl
          · exact fun _ => rfl
          · split
            · exact quiet_comeBack sol _
            · exact opaquely
      · exact opaquely

/-! ### What a call does after hits were noted -/

theorem quiet_result (h : Quiet root (usual call) fun _ => True) :
    Quiet root
      (do
        if rules.isSourceMethod call.method then bringIn ctx call.method call.operation
        else
          let v ← usual call
          if v = .tainted then passOn call.operation v
          else
            Visit.setOrigins call.operation.id FinSet.empty
            return v) fun _ => True := by
  split
  · exact quiet_bringIn _ _
  · refine h.bind fun v _ => ?_
    split
    · exact quiet_passOn _ v
    · exact (quiet_setOrigins _ _).bind fun _ _ => quiet_pure trivial

/-! ### Callees -/

/-- Hits that are noted in one method are not those of another one. -/
theorem quiet_recordHits (h : ctx.owner ≠ root) (call : Call Taint) :
    Quiet root (recordHits rules ctx call) fun _ => True := by
  refine quiet_forM fun x _ => ?_
  unfold recordHit
  dsimp only
  split
  · exact (quiet_read _).bind fun _ _ => quiet_record h _
  · exact quiet_pure trivial

theorem quiet_invoke (h : ctx.owner ≠ root) (husual : Quiet root (usual call) fun _ => True) :
    Quiet root (invoke rules ctx usual call) fun _ => True := by
  unfold invoke
  dsimp only
  split
  · exact (quiet_setOrigins _ _).bind fun _ _ => quiet_pure trivial
  · split
    · exact (quiet_recordHits h call).bind fun _ _ => quiet_result husual
    · exact quiet_result husual

/-- There are no hits of the method. -/
structure Clear (root : Symbol) (m : Machine Taint) : Prop where
  /-- The machine is fine. -/
  fine : Fine root m
  /-- No hit is the method's. -/
  none : ∀ i c k, ¬m.notes.hits.Has i (root, c, k)

theorem Clear.spares (h : Clear root m) (spares : Spares root m m') : Clear root m' :=
  ⟨spares.fine, fun i c k hk => h.none i c k ((spares.hits i c k).1 hk)⟩

theorem Quiet.clear {x : Visit Taint α} (h : Quiet root x P) (hm : Clear root m) :
    Visit.Ensures x m fun _ m' => Clear root m' :=
  (h m hm.fine).mono fun _ _ h => hm.spares h.1

/-- In the body of another method no hits of this one are found. -/
theorem visit_clear (h : ctx.owner ≠ root) (husual : ∀ call, Quiet root (usual call) fun _ => True) (op : Operation)
    (hm : Clear root m) : Visit.Ensures ((taint rules).visit ctx usual op) m fun _ m' => Clear root m' := by
  refine (visit_ensures (T := fun _ m _ m' => Clear root m → Clear root m') ?_ op m).mono fun _ _ h => h hm
  intro op m seen m₁ trail v m₂ run hm
  have operands : Clear root m₁ := trail.keeps (fun _ _ _ _ h => h) hm
  have own : Visit.Ensures ((taint rules).own ctx usual op seen) m₁ fun _ m₂ => Clear root m₂ := by
    by_cases hop : IsCall op
    · obtain ⟨i, method, receiver, args, rfl⟩ := hop
      rw [own, Visit.ensures_bind, Visit.ensures_modifyHits]
      refine (quiet_invoke h (husual _)).clear ⟨⟨operands.fine.keyed.withdraw _, operands.fine.files⟩, fun j c k hk => ?_⟩
      exact operands.none j c k (HitLog.has_withdraw.1 hk).2
    · exact (quiet_own hop seen).clear operands
  have clear := own v m₂ run
  exact ⟨⟨clear.fine.keyed, clear.fine.files⟩, clear.none⟩

theorem runBlock_clear (h : ctx.owner ≠ root) (husual : ∀ call, Quiet root (usual call) fun _ => True) (b : Block)
    (s : State Taint) (hm : Clear root m) :
    Visit.Ensures ((taint rules).runBlock ctx usual b s) m fun _ m' => Clear root m' := by
  unfold runBlock
  simp only [Visit.ensures_bind]
  refine ((quiet_setState s).clear hm).mono fun _ m₁ h₁ => ?_
  refine (Visit.ensures_forM (P := Clear root) (fun op _ m hm => ?_) h₁).mono fun _ m₂ h₂ => ?_
  · simp only [Visit.ensures_bind, Visit.ensures_pure]
    exact ((quiet_recordBefore op.id).clear hm).mono fun _ m' hm' => visit_clear h husual op hm'
  · exact ((quiet_leaveScope _ b.leavingScope).clear h₂).mono fun _ m₃ h₃ => (quiet_read _).clear h₃

/-- What is under way stays under way in a callee that a call leads to, and the callee is another method. -/
theorem underWay_callee {call : Call Taint} {callee : Graph} (hroot : root ∈ ctx.underWay)
    (away : ctx.isOnStack call.method = false) (owner : callee.owner = call.method) (site : OperationId)
    (entry : Option (State Taint)) :
    root ∈ (ctx.forCallee callee site entry).underWay ∧ (ctx.forCallee callee site entry).owner ≠ root := by
  refine ⟨Context.underWay_forCallee.mem_iff.2 (List.mem_cons_of_mem _ hroot), ?_⟩
  rw [show (ctx.forCallee callee site entry).owner = call.method from owner]
  exact fun heq => Context.isOnStack_eq_false.1 away (heq ▸ hroot)

/-- A callee that is under way below a method finds no hits of that method. -/
theorem answers_solveWithin (depth : Nat) (ctx : Context Taint)
    (owned : ∀ method g, ctx.bodies method = some g → g.owner = method) (hroot : root ∈ ctx.underWay)
    (hne : ctx.owner ≠ root) : Answers root ((taint rules).solveWithin depth ctx) := by
  -- A body answers so if calls in it are quiet.
  have body : ∀ {ctx : Context Taint} {usual : Call Taint → Visit Taint Taint}, ctx.owner ≠ root →
      (∀ call, Quiet root (usual call) fun _ => True) → Answers root ((taint rules).solveBody ctx usual) := by
    intro ctx usual hne husual ledger files sol after h
    obtain ⟨p, m, hrun, rfl, rfl⟩ := run_solveBody_eq_ok.1 h
    obtain ⟨initial, -, between⟩ := settleBody_between p m hrun
    have clear : Clear root m := between.keeps (fun b _ s m hm => runBlock_clear hne husual b s hm)
      ⟨⟨HitLog.keyed_empty, files⟩, fun _ _ _ => HitLog.not_has_empty⟩
    refine ⟨fun hit hmem hroot => ?_, clear.fine.files⟩
    obtain ⟨i, hi⟩ := (HitLog.exists_mem_hits_iff clear.fine.keyed).1 ⟨hit, hmem, rfl⟩
    refine clear.none i hit.operation hit.argument ?_
    rw [← hroot]
    exact hi
  induction depth generalizing ctx with
  | zero => exact body hne fun call => quiet_handleCall fun _ _ h => by cases h
  | succ depth ih =>
    refine body hne fun call => quiet_handleCall fun solve callee hsolve away hbody site entry => ?_
    obtain rfl := Option.some.inj hsolve
    obtain ⟨below, other⟩ := underWay_callee hroot away (owned _ _ hbody) site entry
    exact ih (ctx.forCallee callee site entry) owned below other

end Dataflow.Analysis.TaintAnalysis
