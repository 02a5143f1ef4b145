import Dataflow.Proofs.Calls.Memo
import Dataflow.Proofs.Lattice.Absorption
import Dataflow.Proofs.Locals.Stores

/-!
# Variables that are lent to a callee

A call may pass a variable of its caller by reference. If the callee is analysed in the context of the call, its
parameter starts with the value of the argument, and what it holds when the callee returns is stored into the variable.

## The notions

* `Ledger.Honest`: the solutions on file are those of runs that start in the states under which they are filed.
* `LendingCall`: a call lends a variable to a callee that does not store into its parameter.

## What is proved

After such a call the variable holds the value of the argument (`Analysis.follow_returns`, `LendingCall.returns`). That is
what it held if the argument names it. If the argument is a temporary for its location, that is so for literal content and
taint; in the points-to analysis the value of such an argument is the address of the variable, and that is what the
variable holds after the call (`Analysis.analyses_returnLoans`).
-/

namespace Dataflow

variable {V : Type} [DecidableEq V]

/-! ### What is on file -/

/-- A solution of a body that is run in one of some contexts. -/
def ComesFrom (A : Analysis V) (P : Context V → Prop) (sol : Solution V) : Prop :=
  ∃ ctx deeper before after, P ctx ∧ ExceptT.run (A.solveBody ctx (A.handleCall ctx deeper)) before = (.ok sol, after)

/-- A context for the body of a callee that starts in some state. -/
def StartsIn (P : Context V → Prop) (callee : Symbol) (entry : State V) (ctx : Context V) : Prop :=
  P ctx ∧ ctx.entry = some entry ∧ ctx.bodies callee = some ctx.graph

/-- What is filed for callees in context comes from runs that start in the states under which it is filed. -/
def Ledger.Honest (A : Analysis V) (P : Context V → Prop) (ledger : Ledger V) : Prop :=
  ∀ e ∈ ledger.contextual, ComesFrom A (StartsIn P e.1.callee e.1.entry) e.2

/-- With a context all contexts of callees are among some contexts. -/
def Inherited (P : Context V → Prop) : Prop :=
  ∀ ctx callee site entry, P ctx → P (ctx.forCallee callee site entry)

section Files

variable {A : Analysis V} {P : Context V → Prop} {ctx : Context V} {ledger ledger' : Ledger V}

omit [DecidableEq V] in
theorem Ledger.Honest.of_contextual [DecidableEq V] (h : ledger.Honest A P) (same : ledger'.contextual = ledger.contextual) :
    ledger'.Honest A P := by
  unfold Honest
  rw [same]
  exact h

theorem Ledger.honest_start (A : Analysis V) (P : Context V → Prop) (cancelled : Bool) : (Ledger.start cancelled).Honest A P :=
  fun _ he => by cases he

theorem comesFrom_of_run {depth : Nat} (hctx : P ctx) {sol : Solution V}
    (h : ExceptT.run (A.solveWithin depth ctx) ledger = (.ok sol, ledger')) : ComesFrom A P sol := by
  cases depth with
  | zero => exact ⟨ctx, none, ledger, ledger', hctx, h⟩
  | succ depth => exact ⟨ctx, some (A.solveWithin depth), ledger, ledger', hctx, h⟩

namespace Analysis

/-- The solution that is found for a callee in context comes from a run that starts in the state that the call passes. -/
theorem comesFrom_of_found (inherited : Inherited P) (hctx : P ctx) {depth : Nat} {call : Call V} {callee : Graph}
    (body : ctx.bodies call.method = some callee) {m m' : Machine V} (honest : m.ledger.Honest A P) {sol : Solution V}
    (h : ExceptT.run (A.calleeSolution? ctx (A.solveWithin depth) call callee true) m = (.ok (some sol), m')) :
    ComesFrom A (StartsIn P call.method (A.calleeEntry call callee m.state)) sol := by
  have state : ExceptT.run (Visit.state : Visit V (State V)) m = (.ok m.state, m) := rfl
  unfold calleeSolution? at h
  rw [if_pos rfl, Visit.run_bind, state] at h
  dsimp only at h
  rw [Accord.run_solution] at h
  split at h
  · rename_i found
    cases h
    exact honest _ (mem_of_lookup found)
  · split at h
    · cases h
    · cases h
    · split at h
      · rename_i hrun
        cases h
        exact comesFrom_of_run ⟨inherited _ _ _ _ hctx, rfl, body⟩ hrun
      · cases h

/-- Whatever a run files is honest. -/
theorem honest_of_run (H : A.Apart) (inherited : Inherited P) (depth : Nat) (hctx : P ctx) (honest : ledger.Honest A P) :
    (ExceptT.run (A.solveWithin depth ctx) ledger).2.Honest A P := by
  have accepted (ctx : Context V) (method : Symbol) :
      (Congruence.keeping (Ledger.Honest A P)).Rel (accepts ctx method) (accepts ctx method) :=
    Congruence.accepts _ method fun m hm => hm.of_contextual rfl
  induction depth generalizing ctx ledger with
  | zero =>
    refine Congruence.keeping_solveBody H (fun call _ => ?_) honest
    rw [handleCall_eq]
    exact Congruence.handleCallBy _ (accepted ctx _) .none
  | succ depth ih =>
    refine Congruence.keeping_solveBody H (fun call _ => ?_) honest
    rw [handleCall_eq]
    refine Congruence.handleCallBy _ (accepted ctx _) (.some fun callee _ _ body => ?_)
    refine Congruence.bind _ (Congruence.checkCancelled _) fun _ => ?_
    intro m hm
    have reserved {claimed : Ledger V} (h : m.ledger.reserve? (UInt64.ofNat callee.operationCount) ctx.config.calls.maxNodes =
        .ok (some claimed)) : claimed.Honest A P :=
      hm.of_contextual (by rw [Ledger.eq_of_reserve? h])
    rw [run_calleeSolution]
    split
    · exact hm
    · split
      · exact hm
      · exact hm
      · rename_i claimed h
        have hcallee : P (A.calleeContext ctx call callee m.state) := inherited _ _ _ _ hctx
        have after := ih hcallee (reserved h)
        split
        · rename_i sol l hrun
          rw [hrun] at after
          unfold filingAt
          split
          · rename_i inContext
            refine fun e he => (List.mem_cons.1 he).elim (fun same => ?_) (after e)
            rw [same]
            refine comesFrom_of_run ⟨inherited _ _ _ _ hctx, ?_, body⟩ hrun
            simp only [calleeContext, inContext, if_true]
            rfl
          · exact after.of_contextual rfl
        · rename_i hrun
          rw [hrun] at after
          exact after

end Analysis

end Files

/-! ### Into the callee and back -/

namespace Analysis

variable {A : Analysis V} {ctx : Context V} {call : Call V} {callee : Graph} {a : Operand V} {p : Symbol}

/-- What an element brings about and the others keep holds after all of them. -/
theorem foldl_of_mem {α β : Type} {P : β → Prop} {f : β → α → β} {l : List α} {a : α} (mem : a ∈ l) (hit : ∀ t, P (f t a))
    (keep : ∀ t, ∀ b ∈ l, b ≠ a → P t → P (f t b)) (t : β) : P (l.foldl f t) := by
  classical
  obtain ⟨before, after, rfl⟩ := List.append_of_mem mem
  rw [List.foldl_append, List.foldl_cons]
  refine List.foldlRecOn after f (hit _) fun t held b hb => ?_
  by_cases same : b = a
  · exact same ▸ hit t
  · exact keep t b (List.mem_append_right _ (List.mem_cons_of_mem _ hb)) same held

omit [DecidableEq V] in
/-- A parameter starts with the value of the argument that is bound to it. -/
theorem find?_calleeEntry (crosses : A.crossesCalls = true) (mem : (a, some p) ∈ bindings call callee)
    (alone : ∀ b ∈ bindings call callee, b.2 = some p → b = (a, some p)) (s : State V) :
    (A.calleeEntry call callee s).find? (.localVar p callee.owner) = some a.value := by
  unfold calleeEntry
  cases call.receiver
  case' some => refine (FinMap.find?_insert_ne _ _ fun same => by cases same).trans ?_
  all_goals
    refine foldl_of_mem (P := fun t : State V => t.find? (.localVar p callee.owner) = some a.value) mem
      (fun t => (FinMap.find?_insert_self _ _ _).trans ?_) (fun t b hb other held => ?_) _
    · rw [passedValue, if_pos crosses]
    · obtain ⟨b, parameter⟩ := b
      cases parameter with
      | none => exact held
      | some q =>
        exact (FinMap.find?_insert_ne _ _ fun same => other (alone _ hb (by rw [(Entity.localVar.inj same).1]))).trans held

omit [DecidableEq V] in
/-- Storage of a method that is stored into holds the value that is stored, if there is but one. -/
theorem ensures_storeAll_of_mem (plain : A.write = fun e v s => .ok (State.write A.domain e v s)) {e : Entity}
    (isLocal : e.isMethodLocal = true) {v : V} {l : List (Entity × V)} (unique : ∀ x ∈ l, x.1 = e → x.2 = v) {m : Machine V}
    (h : (∃ x ∈ l, x.1 = e) ∨ m.state.find? e = some v) :
    Visit.Ensures (A.storeAll l) m fun _ m' => m'.state.find? e = some v := by
  unfold storeAll
  induction l generalizing m with
  | nil =>
    rw [Visit.ensures_forM_nil]
    exact h.resolve_left fun ⟨_, hx, _⟩ => List.not_mem_nil hx
  | cons x l ih =>
    rw [Visit.ensures_forM_cons]
    show Visit.Ensures (Visit.update (A.write x.1 x.2)) m _
    rw [Visit.ensures_update]
    intro s hs
    rw [plain] at hs
    obtain rfl := Except.ok.inj hs
    refine ih (fun y hy => unique y (List.mem_cons_of_mem _ hy)) ?_
    by_cases hx : x.1 = e
    · refine .inr ?_
      rw [hx, unique x List.mem_cons_self hx]
      exact find?_write_self _ _ _ isLocal
    · refine h.imp (fun ⟨y, hy, same⟩ => ⟨y, (List.mem_cons.1 hy).resolve_left fun h => hx (h ▸ same), same⟩) fun h => ?_
      exact (State.find?_write_of_isMethodLocal _ _ _ isLocal fun same => hx same.symm).trans h

/-- What is passed back into storage of a method is what the callee leaves in the parameter. -/
theorem comeBack_stores (plain : A.write = fun e v s => .ok (State.write A.domain e v s)) {e : Entity}
    (isLocal : e.isMethodLocal = true) {sol : Solution V} {v : V} (passed : ∃ x ∈ A.passedBack call sol true, x.1 = e)
    (unique : ∀ x ∈ A.passedBack call sol true, x.1 = e → x.2 = v) {m : Machine V} :
    Visit.Ensures (A.comeBack ctx call sol true) m fun _ m' => m'.state.find? e = some v := by
  unfold comeBack
  rw [Visit.ensures_bind]
  refine (ensures_storeAll_of_mem plain isLocal unique (.inl passed)).mono fun _ m₁ stored => ?_
  cases sol.finish with
  | none => exact (Visit.ensures_pure _ _ _).2 stored
  | some exit =>
    simp only [if_true, Visit.ensures_bind, Visit.ensures_state, Visit.ensures_pure]
    -- What else comes back is not storage of a method.
    refine (storeAll_relates Visit.Preserves.frame.toSteady (store_preserves plain (K := (· = e)) fun _ same => same ▸ isLocal)
      (fun x hx same => ?_) m₁).mono fun _ m₂ kept => (kept.1 e rfl).trans stored
    have nonlocal := isMethodLocal_of_mem_news hx
    simp [same, isLocal] at nonlocal

end Analysis

/-! ### What an argument is worth -/

/-- The variable that an argument lends: it names the variable, or it is a temporary for its location. -/
def Operation.lent? : Operation → Option Symbol
  | .capture _ _ target true => target.symbol?
  | op => op.symbol?

namespace Analysis

variable {A : Analysis V} {ctx : Context V} {usual : Call V → Visit V V} {x : Symbol} {aliases : List CaptureId}
variable {m : Machine V}

/-- The value of an argument that lends a variable, from the value of the variable. -/
def lentValue (A : Analysis V) (op : Operation) (v : V) : V := if op.isCapture then A.captureLocation op v else v

/-- To read a variable is to look it up in the state. -/
def ReadsVariables (A : Analysis V) (ctx : Context V) : Prop :=
  ∀ op e m, op.symbol?.isSome = true → Visit.Ensures (A.reference ctx op (some e)) m fun v _ =>
    v = State.valueOr A.domain m.state e

variable (names : A.KeepsNames ctx) (reads : A.ReadsVariables ctx) (distinct : ctx.graph.DistinctIds)
include names reads distinct

omit [DecidableEq V] in
/-- A variable has the value that the state has for it. -/
theorem visit_symbol {op : Operation} (hop : op ∈ Operation.subtrees ctx.graph.operations) (h : Distinguishes ctx x aliases m)
    (hx : op.symbol? = some x) : Visit.Ensures (A.visit ctx usual op) m fun v m' =>
      v = State.valueOr A.domain m.state (.localVar x ctx.owner) ∧
        m'.notes.entities.find? op.id = some (.localVar x ctx.owner) := by
  have read : A.visit ctx usual op = Visit.resolve op none [] >>= A.reference ctx op >>= fun v => do
      Visit.recordValue op.id v
      return v := by
    cases op with
    | localRef | parameterRef => simp [visit]
    | _ => cases hx
  rw [read, bind_assoc, Visit.ensures_bind, Visit.ensures_resolve, h.faithful.resolve_symbol h.method distinct hop hx,
    Visit.ensures_bind]
  refine fun v m' hrun => ?_
  obtain rfl := reads op _ _ (by rw [hx]; rfl) v m' hrun
  rw [Visit.ensures_bind, Visit.ensures_recordValue, Visit.ensures_pure]
  refine ⟨rfl, ?_⟩
  rw [(names.reference op _ _ _ _ hrun).2]
  exact FinMap.find?_insert_self _ _ _

omit [DecidableEq V] in
/-- An argument that lends a variable stands for the variable. -/
theorem visit_lent {op : Operation} (hop : op ∈ Operation.subtrees ctx.graph.operations) (h : Distinguishes ctx x aliases m)
    (hx : op.lent? = some x) : Visit.Ensures (A.visit ctx usual op) m fun v m' =>
      v = A.lentValue op (State.valueOr A.domain m.state (.localVar x ctx.owner)) ∧
        m'.notes.entities.find? op.id = some (.localVar x ctx.owner) := by
  cases op with
  | capture i c target byLocation =>
    cases byLocation with
    | false => cases hx
    | true =>
      have htarget : target ∈ Operation.subtrees ctx.graph.operations :=
        Operation.mem_subtrees_of_mem_operands hop (by simp [Operation.operands])
      rw [visit, Visit.ensures_bind]
      refine (visit_symbol names reads distinct htarget h hx).mono fun v m₁ seen => ?_
      simp only [captureLocationOf, if_true, Visit.ensures_bind, Visit.ensures_entityOf, seen.2, Visit.recordEntity,
        Visit.bindCapture, Visit.ensures_modifyNotes, Visit.ensures_recordValue, Visit.ensures_pure]
      refine ⟨?_, FinMap.find?_insert_self _ _ _⟩
      rw [seen.1]
      rfl
  | localRef | parameterRef => exact visit_symbol names reads distinct hop h hx
  | _ => cases hx

variable (preserves : A.PreservesLocals ctx) (husual : IsUsual A ctx usual) (covers : ctx.graph.Covers x aliases)
include preserves husual covers

/-- Operands that do not store into a variable leave what it holds, and those that lend it have the value of that. -/
theorem seeAll_lent {ops : List Operation} (hops : ∀ o ∈ ops, o ∈ Operation.subtrees ctx.graph.operations)
    (spares : ∀ o ∈ Operation.subtrees ops, o.mayStore x aliases = false) (h : Distinguishes ctx x aliases m) :
    Visit.Ensures (A.seeAll ctx usual ops) m fun seen m' => seen.length = ops.length ∧
      Sparing ctx x aliases (Operation.subtrees ops) m m' ∧ Tells ctx x aliases ops seen ∧ ∀ p ∈ ops.zip seen, p.1.lent? = some x →
        p.2 = ⟨A.lentValue p.1 (State.valueOr A.domain m'.state (.localVar x ctx.owner)), some (.localVar x ctx.owner)⟩ := by
  refine (seeAll_ensures (T := fun op m v m' => Distinguishes ctx x aliases m → Sparing ctx x aliases op.subtree m m' ∧
    (op.lent? = some x → v = A.lentValue op (State.valueOr A.domain m.state (.localVar x ctx.owner)) ∧
      m'.notes.entities.find? op.id = some (.localVar x ctx.owner))) (fun op hop m v m' hrun hm =>
        ⟨visit_spares distinct covers names preserves husual (hops op hop) hm v m' hrun,
          fun hx => visit_lent names reads distinct (hops op hop) hm hx v m' hrun⟩) m).mono fun seen m' trail => ?_
  induction trail with
  | nil => exact ⟨rfl, .refl h, fun _ hp => absurd hp List.not_mem_nil, fun _ hp => absurd hp List.not_mem_nil⟩
  | @cons o ops m m₁ m₂ v seen first _ ih =>
    obtain ⟨spared, lent⟩ := first h
    rw [Operation.subtrees_cons] at spares
    obtain ⟨length, others, tells, values⟩ := ih (fun o ho => hops o (List.mem_cons_of_mem _ ho))
      (fun o ho => spares o (List.mem_append_right _ ho)) spared.distinguishes
    have whole := spared.append others
    have same : m₂.state.find? (.localVar x ctx.owner) = m.state.find? (.localVar x ctx.owner) :=
      whole.holds fun o ho => spares o (by simpa using ho)
    refine ⟨congrArg (· + 1) length, whole, fun p hp => ?_, fun p hp hx => ?_⟩
    · rcases List.mem_cons.1 hp with rfl | hp
      · exact spared.distinguishes.entities o (hops o List.mem_cons_self)
      · exact tells p hp
    · rcases List.mem_cons.1 hp with rfl | hp
      · obtain ⟨rfl, entity⟩ := lent hx
        rw [entity, State.valueOr, State.valueOr, same]
      · exact values p hp hx

end Analysis

/-! ### Lending -/

namespace Analysis

/-- An argument is bound to a parameter with storage of a method, and no other argument is with either. -/
structure Binds (call : Call V) (callee : Graph) (a : Operand V) (e : Entity) (p : Symbol) : Prop where
  /-- The argument is bound to the parameter. -/
  bound : (a, some p) ∈ bindings call callee
  /-- It is passed by reference. -/
  byRef : a.refKind.isByRef = true
  /-- It stands for the storage. -/
  entity : a.entity = some e
  /-- The storage belongs to a method. -/
  isLocal : e.isMethodLocal = true
  /-- No other argument is bound to the parameter, and none passes the storage by reference. -/
  alone : ∀ b ∈ bindings call callee, b.2 = some p ∨ b.1.refKind.isByRef = true ∧ b.1.entity = some e → b = (a, some p)

/-- The body of a callee that may return, and that does not store into a parameter; nor does a temporary stand for it. -/
structure Retains (callee : Graph) (p : Symbol) : Prop where
  /-- The body is well formed. -/
  valid : callee.Valid
  /-- Identifiers tell its operations apart. -/
  distinct : callee.DistinctIds
  /-- The callee may return. -/
  returns : callee.Reachable callee.exit
  /-- Nothing stores into the parameter. -/
  spares : callee.Spares p []

variable {A : Analysis V} {P : Context V → Prop} {ctx : Context V} {call : Call V} {callee : Graph} {a : Operand V}
variable {e : Entity} {p : Symbol} {m m' m₁ : Machine V} {depth : Nat} {sol : Solution V} {v : V}

/-- After a call whose callee was analysed in context, storage of the caller that the callee does not store into holds the
value of the argument. -/
theorem follow_returns (crosses : A.crossesCalls = true) (idem : ∀ v, A.domain.merge v v = v)
    (names : ∀ ctx, P ctx → A.KeepsNames ctx) (preserves : ∀ ctx, P ctx → A.PreservesLocals ctx) (inherited : Inherited P)
    (bodies : ∀ ctx', P ctx' → ctx'.bodies = ctx.bodies) (hctx : P ctx) (body : ctx.bodies call.method = some callee)
    (retains : Retains callee p) (binds : Binds call callee a e p) (honest : m.ledger.Honest A P)
    (analysed : ExceptT.run (A.calleeSolution? ctx (A.solveWithin depth) call callee true) m = (.ok (some sol), m₁))
    (h : ExceptT.run (A.follow ctx (A.solveWithin depth) call callee true) m = (.ok v, m')) :
    m'.state.find? e = some a.value := by
  obtain ⟨ctx', deeper, before, after, ⟨hctx', hentry, hbody⟩, hrun⟩ :=
    comesFrom_of_found inherited hctx body honest analysed
  obtain rfl : ctx'.graph = callee := by
    rw [bodies ctx' hctx', body] at hbody
    exact (Option.some.inj hbody).symm
  have graph : sol.graph = ctx'.graph := by
    obtain ⟨p, m, -, rfl, -⟩ := run_solveBody_eq_ok.1 hrun
    rfl
  -- The parameter starts with the value of the argument, and still has it in the end.
  have passed := find?_calleeEntry crosses binds.bound (fun b hb hp => binds.alone b hb (.inl hp)) m.state
  obtain ⟨exit, hexit, kept⟩ := solveBody_spares retains.distinct (names ctx' hctx') (preserves ctx' hctx') ⟨deeper, rfl⟩
    retains.valid retains.spares idem hrun hentry passed retains.returns
  have finish : sol.finish = some exit := by rw [Solution.finish, graph, hexit]
  have held : State.valueOr A.domain exit (.localVar p ctx'.graph.owner) = a.value := State.valueOr_of_find? _ kept
  have back : (e, a.value) ∈ A.passedBack call sol true := by
    refine List.mem_filterMap.2 ⟨(a, some p), by rw [graph]; exact binds.bound, ?_⟩
    simp [binds.byRef, binds.entity, finish, returnedValue, Solution.owner, graph, held]
  have unique : ∀ x ∈ A.passedBack call sol true, x.1 = e → x.2 = a.value := by
    intro x hx same
    obtain ⟨b, q, hb, byRef, entity, value⟩ := exists_of_mem_passedBack hx
    rw [graph] at hb
    obtain ⟨rfl, same⟩ := Prod.mk.inj (binds.alone (b, some q) hb (.inr ⟨byRef, entity.trans (congrArg some same)⟩))
    obtain rfl := Option.some.inj same
    rw [value, finish, returnedValue, if_pos rfl, Option.elim_some, Solution.owner, graph, held]
  obtain ⟨_, m₀, hrunning, h⟩ := Visit.run_bind_eq_ok.1 h
  rw [Visit.run_checkCancelled_eq] at hrunning
  obtain rfl := (Prod.mk.inj hrunning).2
  obtain ⟨found, m₂, hfound, h⟩ := Visit.run_bind_eq_ok.1 h
  rw [analysed] at hfound
  cases hfound
  obtain ⟨_, m₃, -, h⟩ := Visit.run_bind_eq_ok.1 h
  obtain ⟨_, m₄, -, h⟩ := Visit.run_bind_eq_ok.1 h
  rw [if_pos crosses] at h
  exact comeBack_stores (preserves ctx hctx).write binds.isLocal ⟨_, back, rfl⟩ unique v m' h

end Analysis

/-- An argument lends a variable to a parameter, and no other argument is bound to the parameter or may pass the variable
by reference. -/
structure Lends (arguments : List (Argument Operation)) (callee : Graph) (x p : Symbol) (aliases : List CaptureId)
    (k : Nat) (argument : Argument Operation) : Prop where
  /-- Where the argument stands. -/
  position : arguments[k]? = some argument
  /-- It is passed by reference. -/
  byRef : argument.refKind.isByRef = true
  /-- It names the variable, or captures its location. -/
  lent : argument.value.lent? = some x
  /-- The call names the parameter, or it is the one at that position. -/
  bound : argument.parameter.or callee.parameters[k]? = some p
  /-- The others have nothing to do with either. -/
  alone : ∀ j other, arguments[j]? = some other → j ≠ k → other.parameter.or callee.parameters[j]? ≠ some p ∧
    (other.refKind.isByRef = true → other.value.mayName x aliases = false)

namespace Analysis

omit [DecidableEq V] in
/-- Each argument of a call, with its parameter. -/
theorem getElem?_bindings {call : Call V} {callee : Graph} (j : Nat) : (bindings call callee)[j]? =
    (call.arguments[j]?).map fun a => (a, a.parameter.or callee.parameters[j]?) := by
  unfold bindings boundParameters
  rw [List.zip_eq_zipWith, List.getElem?_zipWith, List.getElem?_map, List.zip_eq_zipWith, List.getElem?_zipWith]
  cases h : call.arguments[j]? with
  | none => rfl
  | some a =>
    rw [List.getElem?_range (List.getElem?_eq_some_iff.1 h).1]
    rfl

omit [DecidableEq V] in
/-- What lends the variable is bound to the parameter. -/
theorem binds_of_lends {A : Analysis V} {ctx : Context V} {i : OperationInfo} {method : Symbol} {receiver : Option Operation}
    {arguments : List (Argument Operation)} {callee : Graph} {x p : Symbol} {aliases : List CaptureId} {k : Nat}
    {argument : Argument Operation} (h : Lends arguments callee x p aliases k argument) {seen : List (Seen V)} {s : Seen V}
    (tells : Tells ctx x aliases (Operation.invocation i method receiver arguments).operands seen)
    (hs : seen[receiver.toList.length + k]? = some s) (entity : s.entity = some (.localVar x ctx.owner)) (op : Operation) :
    Binds (A.callOf ctx op method receiver arguments seen) callee (A.argumentOf ctx argument s) (.localVar x ctx.owner) p := by
  have hargument : (A.callOf ctx op method receiver arguments seen).arguments[k]? = some (A.argumentOf ctx argument s) := by
    rw [callOf, List.getElem?_zipWith_eq_some]
    exact ⟨argument, s, h.position, by rw [List.getElem?_drop]; exact hs, rfl⟩
  have reference : (argument.value.isReference || argument.value.isCapture) = true := by
    have lent := h.lent
    generalize argument.value = o at lent
    cases o with
    | localRef | parameterRef | capture => rfl
    | _ => cases lent
  have bound : (bindings (A.callOf ctx op method receiver arguments seen) callee)[k]? =
      some (A.argumentOf ctx argument s, some p) := by
    rw [getElem?_bindings, hargument, ← h.bound]
    rfl
  refine ⟨List.mem_of_getElem? bound, h.byRef, ?_, rfl, fun b hb touches => ?_⟩
  · simp only [argumentOf, operandOf, reference, if_true, entity]
  · obtain ⟨j, hj⟩ := List.mem_iff_getElem?.1 hb
    by_cases hjk : j = k
    · rw [hjk, bound] at hj
      exact (Option.some.inj hj).symm
    · rw [getElem?_bindings] at hj
      obtain ⟨a, ha, rfl⟩ := Option.map_eq_some_iff.1 hj
      obtain ⟨other, t, hother, rfl, hseen⟩ := exists_of_getElem?_arguments (i := i) ha
      obtain ⟨unbound, unnamed⟩ := h.alone j other hother hjk
      rcases touches with hp | ⟨byRef, hentity⟩
      · exact absurd hp unbound
      · have named := tells _ hseen (entity_of_argumentOf hentity)
        rw [unnamed byRef] at named
        cases named

end Analysis

/-- A call that lends a variable to a callee. -/
structure LendingCall (A : Analysis V) (Q : Context V → Prop) where
  /-- The context of the caller. -/
  ctx : Context V
  /-- The way to handle calls. -/
  usual : Call V → Visit V V
  /-- The variable. -/
  x : Symbol
  /-- The temporaries that may stand for it. -/
  aliases : List CaptureId
  /-- What the call carries. -/
  info : OperationInfo
  /-- The method that is called. -/
  method : Symbol
  /-- The receiver. -/
  receiver : Option Operation
  /-- The arguments. -/
  arguments : List (Argument Operation)
  /-- Where the argument stands that lends the variable. -/
  position : Nat
  /-- That argument. -/
  argument : Argument Operation
  /-- The body of the method. -/
  callee : Graph
  /-- The parameter that gets the variable. -/
  parameter : Symbol
  /-- The machine before the operands are visited. -/
  start : Machine V
  /-- What is seen of the operands. -/
  seen : List (Seen V)
  /-- The machine after that. -/
  visited : Machine V
  /-- The machine that the call is handled with. -/
  calling : Machine V
  /-- The caller is one of some contexts. -/
  suits : Q ctx
  /-- Calls are handled as in some run. -/
  isUsual : Analysis.IsUsual A ctx usual
  /-- Identifiers tell the operations of the caller apart. -/
  distinct : ctx.graph.DistinctIds
  /-- The call is one of them. -/
  mem : Operation.invocation info method receiver arguments ∈ Operation.subtrees ctx.graph.operations
  /-- No other temporaries stand for the variable. -/
  covers : ctx.graph.Covers x aliases
  /-- The operands do not store into it. -/
  spares : ∀ o ∈ Operation.subtrees (Operation.invocation info method receiver arguments).operands,
    o.mayStore x aliases = false
  /-- The method has a body. -/
  body : ctx.bodies method = some callee
  /-- The body leaves the parameter as it is. -/
  retains : Analysis.Retains callee parameter
  /-- The argument lends the variable to the parameter. -/
  lends : Lends arguments callee x parameter aliases position argument
  /-- Nothing else was taken for the variable. -/
  distinguishes : Distinguishes ctx x aliases start
  /-- The operands are visited. -/
  run : ExceptT.run (A.seeAll ctx usual (Operation.invocation info method receiver arguments).operands) start =
    (.ok seen, visited)
  /-- The state stays as it is until the call is handled. -/
  state : calling.state = visited.state
  /-- The solutions on file are what runs came to. -/
  honest : calling.ledger.Honest A fun ctx' => Q ctx' ∧ ctx'.bodies = ctx.bodies

namespace LendingCall

variable {A : Analysis V} {Q : Context V → Prop} (L : LendingCall A Q)

/-- The variable. -/
def entity : Entity := .localVar L.x L.ctx.owner

/-- The call, with what is seen of the operands. -/
def call : Call V :=
  A.callOf L.ctx (.invocation L.info L.method L.receiver L.arguments) L.method L.receiver L.arguments L.seen

/-- If the callee is analysed in context, the variable holds afterwards what the argument makes of the value that it held
before. -/
def Returns (worth : Operation → V → V) : Prop :=
  ∀ depth sol m m' v, ExceptT.run (A.calleeSolution? L.ctx (A.solveWithin depth) L.call L.callee true) L.calling =
      (.ok (some sol), m) →
    ExceptT.run (A.follow L.ctx (A.solveWithin depth) L.call L.callee true) L.calling = (.ok v, m') →
      m'.state.find? L.entity = some (worth L.argument.value (State.valueOr A.domain L.calling.state L.entity))

/-- The variable holds the value of the argument afterwards. -/
theorem returns (crosses : A.crossesCalls = true) (idem : ∀ v, A.domain.merge v v = v)
    (names : ∀ ctx, Q ctx → A.KeepsNames ctx) (preserves : ∀ ctx, Q ctx → A.PreservesLocals ctx)
    (reads : ∀ ctx, A.ReadsVariables ctx) (inherited : Inherited Q) : L.Returns A.lentValue := by
  intro depth sol m m' v analysed h
  obtain ⟨length, -, tells, values⟩ := Analysis.seeAll_lent (names _ L.suits) (reads _) L.distinct (preserves _ L.suits)
    L.isUsual L.covers (fun o ho => Operation.mem_subtrees_of_mem_operands L.mem ho) L.spares L.distinguishes L.seen
    L.visited L.run
  have operand : (Operation.invocation L.info L.method L.receiver L.arguments).operands[L.receiver.toList.length + L.position]? =
      some L.argument.value := by
    rw [Operation.operands, List.getElem?_append_right (Nat.le_add_right _ _), Nat.add_sub_cancel_left, List.getElem?_map,
      L.lends.position]
    rfl
  obtain ⟨s, hs⟩ : ∃ s, L.seen[L.receiver.toList.length + L.position]? = some s := by
    have bound := (List.getElem?_eq_some_iff.1 operand).1
    exact ⟨_, List.getElem?_eq_getElem (length ▸ bound)⟩
  have worth : s = ⟨A.lentValue L.argument.value (State.valueOr A.domain L.visited.state L.entity), some L.entity⟩ :=
    values (L.argument.value, s) (List.mem_of_getElem? (List.getElem?_zip_eq_some.2 ⟨operand, hs⟩)) L.lends.lent
  have binds := Analysis.binds_of_lends (A := A) L.lends tells hs (congrArg Seen.entity worth)
    (.invocation L.info L.method L.receiver L.arguments)
  have after := Analysis.follow_returns crosses idem (fun ctx' h => names ctx' h.1) (fun ctx' h => preserves ctx' h.1)
    (fun ctx' callee site entry h => ⟨inherited ctx' callee site entry h.1, h.2⟩) (fun _ h => h.2) ⟨L.suits, rfl⟩ L.body
    L.retains binds L.honest analysed h
  rw [L.state]
  exact after.trans (congrArg some (congrArg Seen.value worth))

end LendingCall

namespace Analysis

/-- What runs file is honest, and what is lent in a call comes back as the argument makes it. -/
structure ReturnsLoans (A : Analysis V) (Q : Context V → Prop) (worth : Operation → V → V) : Prop where
  /-- Runs file only what runs come to. -/
  honest : ∀ ctx, Q ctx → ∀ ledger : Ledger V, (ledger.Honest A fun ctx' => Q ctx' ∧ ctx'.bodies = ctx.bodies) →
    ((A.solve ctx).run ledger).2.Honest A fun ctx' => Q ctx' ∧ ctx'.bodies = ctx.bodies
  /-- The variable holds what the argument was worth. -/
  returns : ∀ L : LendingCall A Q, L.Returns worth

theorem pointsTo_readsVariables (ctx : Context PointsTo) : pointsTo.ReadsVariables ctx := by
  intro op e m _
  show Visit.Ensures (do return State.valueOr Domain.pointsTo (← Visit.state) e) m _
  simp only [Visit.ensures_bind, Visit.ensures_state, Visit.ensures_pure]
  rfl

theorem contents_readsVariables (ctx : Context Content) : contents.ReadsVariables ctx := by
  intro op e m _
  show Visit.Ensures (do return State.valueOr Domain.contents (← Visit.state) e) m _
  simp only [Visit.ensures_bind, Visit.ensures_state, Visit.ensures_pure]
  rfl

theorem taint_readsVariables (rules : TaintRules) (ctx : Context Taint) : (taint rules).ReadsVariables ctx := by
  intro op e m hop
  have field : TaintAnalysis.fieldRead? op = none := by
    cases op with
    | localRef | parameterRef => rfl
    | _ => cases hop
  show Visit.Ensures (TaintAnalysis.reference rules ctx op (some e)) m _
  unfold TaintAnalysis.reference
  rw [field]
  show Visit.Ensures (do
    Visit.setOrigins op.id (← Visit.entityOriginsOf (some e))
    return State.valueOr Domain.taint (← Visit.state) e) m _
  simp [Visit.setOrigins]
  rfl

theorem returnsLoans {A : Analysis V} {Q : Context V → Prop} (apart : A.Apart) (crosses : A.crossesCalls = true)
    (idem : ∀ v, A.domain.merge v v = v) (names : ∀ ctx, Q ctx → A.KeepsNames ctx)
    (preserves : ∀ ctx, Q ctx → A.PreservesLocals ctx) (reads : ∀ ctx, A.ReadsVariables ctx) (inherited : Inherited Q) :
    A.ReturnsLoans Q A.lentValue where
  honest ctx hctx ledger honest := by
    refine honest_of_run apart (fun ctx' callee site entry h => ⟨inherited ctx' callee site entry h.1, h.2⟩) _ ?_ honest
    exact ⟨hctx, rfl⟩
  returns L := L.returns crosses idem names preserves reads inherited

/-- **What is lent in a call comes back.** If a callee is analysed in context and does not store into its parameter, then
in the analyses of literal content and taint a variable that is passed by reference holds after the call what it held
before. In the points-to analysis it does so if the argument names the variable; if the argument is a temporary for its
location, the variable holds the address of itself. -/
theorem analyses_returnLoans (rules : TaintRules) :
    contents.ReturnsLoans (·.copies = none) (fun _ v => v) ∧ (taint rules).ReturnsLoans (fun _ => True) (fun _ v => v) ∧
      pointsTo.ReturnsLoans (fun _ => True) fun op v => if op.isCapture then .captures [op.id] else v := by
  have same {V : Type} {A : Analysis V} (h : ∀ op v, A.captureLocation op v = v) : A.lentValue = fun _ v => v := by
    funext op v
    unfold lentValue
    rw [h, ite_self]
  refine ⟨?_, ?_, ?_⟩
  · rw [← same (A := contents) fun _ _ => rfl]
    exact returnsLoans contents_apart rfl Content.merge_self (fun ctx _ => contents_keepsNames ctx)
      (fun _ copies => contents_preservesLocals copies) contents_readsVariables
      fun ctx _ _ _ copies => by simp only [Context.forCallee, copies, Option.bind_none]
  · rw [← same (A := taint rules) fun _ _ => rfl]
    exact returnsLoans (taint_apart rules) rfl Taint.merge_self (fun ctx _ => taint_keepsNames rules ctx)
      (fun ctx _ => taint_preservesLocals rules ctx) (taint_readsVariables rules) fun _ _ _ _ _ => trivial
  · exact returnsLoans pointsTo_apart rfl PointsTo.merge_self (fun ctx _ => pointsTo_keepsNames ctx)
      (fun ctx _ => pointsTo_preservesLocals ctx) pointsTo_readsVariables fun _ _ _ _ _ => trivial

/-! ### A variable that is lent by way of a temporary -/

namespace Loan

open Nodes

/-- A method that gets a variable by reference. -/
def touch : Symbol := Symbol.method "C" "touch" none

/-- Its parameter. -/
def parameter : Symbol := ⟨"p", .parameter, node, none, .ref, 0⟩

/-- It does nothing. -/
def callee : Graph := ⟨touch, [parameter], [⟨⟨0⟩, .entry, [], none, [⟨⟨1⟩, .regular⟩], []⟩, .bare ⟨1⟩ .exit]⟩

/-- The variable that it gets. -/
def lent : Symbol := Symbol.localVar "x" node

/-- A temporary for the location of the variable, passed by reference. -/
def argument : Argument Operation := ⟨none, .capture (info 4 node) ⟨0⟩ (ref 3 "x") true, .ref⟩

/-- The call. -/
def call : Operation := .invocation (info 5 none) touch none [argument]

/-- Stores something into the variable, lends it, and returns what it holds then. -/
def graph (value : Operation) : Graph :=
  body [.assignment (info 2 node) (ref 0 "x") value, call, .ret (info 7 node) (some (ref 6 "x"))]

/-- Callees are analysed in the contexts of their calls. -/
def context {V : Type} (value : Operation) : Context V :=
  Context.start (graph value) { Config.usual with calls := CallConfig.usual .inContext }
    fun m => if m = touch then some callee else none

/-- One. -/
def one : Operation := .literal (info 1 int) (.integer 1)

/-- The machine when one was stored into the variable. -/
def before : Machine Content := machine (State.empty.insert (.localVar lent main) (.ofLiteral (.integer 1))) true

theorem retains : Retains callee parameter where
  valid := by decide +kernel
  distinct := by decide +kernel
  returns := .branch .entry (by decide +kernel)
  spares := by
    have nothing : Operation.subtrees callee.operations = [] := by decide +kernel
    refine ⟨fun i c target h => ?_, fun op h => ?_, by decide +kernel⟩
    · rw [nothing] at h
      cases h
    · rw [nothing] at h
      cases h

/-- The variable is captured by one temporary only. -/
theorem covers : (graph one).Covers lent [⟨0⟩] := by
  intro i c target h _
  simp [graph, one, call, argument, body, ref, Graph.operations, Block.allOperations, Operation.subtrees, Operation.subtree,
    Operation.subtreeArguments, Operation.subtreeOption, Block.bare] at h
  simp [h.2.1]

theorem mem_operations : call ∈ Operation.subtrees (graph one).operations := by
  have listed : call ∈ (graph one).operations := by simp [graph, body, Graph.operations, Block.allOperations]
  exact Operation.subtree_subset_of_mem listed _ call.mem_subtree_self

theorem lends : Lends [argument] callee lent parameter [⟨0⟩] 0 argument where
  position := rfl
  byRef := rfl
  lent := rfl
  bound := rfl
  alone j other h hj := by
    cases j with
    | zero => exact absurd rfl hj
    | succ j => cases h

/-- The visit of the operands. -/
def visit : Except Failure (List (Seen Content)) × Machine Content :=
  ExceptT.run (contents.seeAll (context one) (contents.handleCall (context one) none) call.operands) before

/-- The call when the operands were visited. -/
def loan : LendingCall contents (·.copies = none) where
  ctx := context one
  usual := contents.handleCall (context one) none
  x := lent
  aliases := [⟨0⟩]
  info := info 5 none
  method := touch
  receiver := none
  arguments := [argument]
  position := 0
  argument := argument
  callee := callee
  parameter := parameter
  start := before
  seen := visit.1.toOption.getD []
  visited := visit.2
  calling := { visit.2 with ledger := Ledger.start false }
  suits := rfl
  isUsual := ⟨none, rfl⟩
  distinct := by decide +kernel
  mem := mem_operations
  covers := covers
  spares := by decide +kernel
  body := rfl
  retains := retains
  lends := lends
  distinguishes := distinguishes_of_start _ _ rfl
  run := by
    obtain ⟨seen, visited, h⟩ := exists_of_isOk (r := visit) (by decide +kernel)
    show visit = _
    rw [h]
    rfl
  state := rfl
  honest := Ledger.honest_start _ _ _

end Loan

open Nodes Loan in
/-- One is stored into a variable, and after a temporary for its location was passed by reference the variable still holds
one. -/
theorem analyses_returnLoans_loan : ∃ depth sol m m' v,
    ExceptT.run (contents.calleeSolution? loan.ctx (contents.solveWithin depth) loan.call loan.callee true) loan.calling =
      (.ok (some sol), m) ∧
    ExceptT.run (contents.follow loan.ctx (contents.solveWithin depth) loan.call loan.callee true) loan.calling = (.ok v, m') ∧
    m'.state.find? (.localVar lent main) = some (.ofLiteral (.integer 1)) := by
  obtain ⟨found, m, sol, hfound, rfl, -⟩ := exists_of_inspected (g := id) (f := fun _ => ())
    (r := ExceptT.run (contents.calleeSolution? loan.ctx (contents.solveWithin 0) loan.call loan.callee true) loan.calling)
    (y := ()) (by decide +kernel)
  obtain ⟨v, m', hfollow⟩ := exists_of_isOk
    (r := ExceptT.run (contents.follow loan.ctx (contents.solveWithin 0) loan.call loan.callee true) loan.calling)
    (by decide +kernel)
  obtain ⟨⟨-, returns⟩, -, -⟩ := analyses_returnLoans (TaintRules.ofConfig (KnownTypes.ofList []) .empty)
  have held : State.valueOr contents.domain loan.calling.state loan.entity = .ofLiteral (.integer 1) := by decide +kernel
  refine ⟨0, sol, m, m', v, hfound, hfollow, ?_⟩
  rw [← held]
  exact returns loan 0 sol m m' v hfound hfollow

open Nodes Loan in
/-- A new node is stored into a variable. After a temporary for the location of the variable was passed by reference to a
method that does nothing, the variable holds its own address. -/
theorem not_pointsTo_returnsLoans : Retains callee parameter ∧ ∃ sol ledger s t,
    (pointsTo.solve (context (.objectCreation (info 1 node) []))).run (Ledger.start false) = (.ok sol, ledger) ∧
    (sol.calleeAt ⟨5⟩).isSome = true ∧
    sol.stateBefore ⟨5⟩ = some s ∧ s.find? (.localVar lent main) = some (.known [created 1] .notNull) ∧
    sol.stateBefore ⟨7⟩ = some t ∧ t.find? (.localVar lent main) = some (.captures [⟨4⟩]) := by
  obtain ⟨sol, ledger, q, hrun, found, held⟩ := exists_of_inspected
    (r := (pointsTo.solve (context (.objectCreation (info 1 node) []))).run (Ledger.start false))
    (g := fun sol => (sol.stateBefore ⟨5⟩).bind fun s => (sol.stateBefore ⟨7⟩).map fun t =>
      ((sol.calleeAt ⟨5⟩).isSome, s, t))
    (f := fun q => (q.1, q.2.1.find? (.localVar lent main), q.2.2.find? (.localVar lent main)))
    (y := (true, some (.known [created 1] .notNull), some (.captures [⟨4⟩]))) (by decide +kernel)
  obtain ⟨s, hs, found⟩ := Option.bind_eq_some_iff.1 found
  obtain ⟨t, ht, found⟩ := Option.map_eq_some_iff.1 found
  obtain ⟨analysed, held⟩ := Prod.mk.inj held
  obtain ⟨before, after⟩ := Prod.mk.inj held
  rw [← found] at analysed before after
  exact ⟨retains, sol, ledger, s, t, hrun, analysed, hs, before, ht, after⟩

end Analysis

end Dataflow
