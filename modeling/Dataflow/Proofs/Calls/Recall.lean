import Dataflow.Proofs.Calls.Ledger
import Dataflow.Proofs.Visit.Course
import Dataflow.Proofs.Visit.Names

/-!
# Which callee's solution is kept for a call

A call is visited as often as the state before it changes, and each visit decides anew whether the callee is analysed. The
solution of the body keeps a solution of the callee for each call that was followed.

## The notions

* `Analysis.answer`: the solution of the callee that a call is handled with, if it is followed.
* `Analysis.visitsOf`: how the visits of a call were handled in the course of a run.
* `Analysis.AsksUsual`: an analysis leaves some calls to the usual way to handle them, and deals with the others itself.
* `Analysis.Recalled`: what is noted of callees after a part of a run, from how the visits in it were handled.

## What is proved

To look for a callee's solution leaves the body alone (`answer_leavesBody`). A call that is handled with one is noted with
it, while one that is opaque leaves the notes of callees as they are (`handleCall_callees`). So a solution keeps the
callee's solution of the last visit that was followed, and not of the last visit: the two are the same exactly if the last
visit was followed or no visit was (`analyses_recall`). A call in a loop that exhausts the budget is followed first and
opaque at last (`not_pointsTo_forgets`).
-/

namespace Dataflow

/-- A finite map lists one value for each key. -/
theorem FinMap.lookup_entries {α β : Type} [Ord α] [Std.TransOrd α] [Std.LawfulEqOrd α] [DecidableEq α] (m : FinMap α β)
    (k : α) : m.entries.lookup k = m.find? k := by
  cases h : m.entries.lookup k with
  | some v => exact (FinMap.mem_entries.1 (mem_of_lookup h)).symm
  | none =>
    cases found : m.find? k with
    | none => rfl
    | some v => exact absurd rfl (bne_iff_ne.1 (List.lookup_eq_none_iff.1 h _ (FinMap.mem_entries.2 found)))

variable {V α β : Type}

/-! ### Work beside a body -/

namespace Visit

/-- It works on the ledger and may read the state, but the notes play no part. -/
def LeavesBody (x : Visit V α) : Prop :=
  ∀ s ledger, ∃ r ledger', ∀ notes, ExceptT.run x ⟨s, notes, ledger⟩ = (r, ⟨s, notes, ledger'⟩)

namespace LeavesBody

theorem pure (a : α) : LeavesBody (pure a : Visit V α) := fun _ ledger => ⟨.ok a, ledger, fun _ => rfl⟩

theorem state : LeavesBody (state : Visit V (State V)) := fun s ledger => ⟨.ok s, ledger, fun _ => rfl⟩

theorem modifyLedger (f : Ledger V → Ledger V) : LeavesBody (modifyLedger f) :=
  fun _ ledger => ⟨.ok ⟨⟩, f ledger, fun _ => rfl⟩

theorem checkCancelled : LeavesBody (checkCancelled : Visit V Unit) :=
  fun _ ledger => ⟨if ledger.cancelled then .error .cancelled else .ok (), ledger, fun _ => run_checkCancelled_eq _⟩

theorem bind {x : Visit V α} {f : α → Visit V β} (h : LeavesBody x) (hf : ∀ a, LeavesBody (f a)) :
    LeavesBody (x >>= f) := by
  intro s ledger
  obtain ⟨r, ledger₁, hx⟩ := h s ledger
  cases r with
  | error e => exact ⟨.error e, ledger₁, fun notes => by rw [run_bind, hx]⟩
  | ok a =>
    obtain ⟨r, ledger₂, ha⟩ := hf a s ledger₁
    exact ⟨r, ledger₂, fun notes => by rw [run_bind, hx]; exact ha notes⟩

end LeavesBody

end Visit

namespace Analysis

variable (A : Analysis V) (ctx : Context V) [DecidableEq V]

/-! ### How calls are answered -/

/-- The solution of the callee that a call is handled with; none if the call is opaque. -/
def answer (deeper : Option (Context V → Run V (Solution V))) (call : Call V) : Visit V (Option (Solution V)) := do
  if ctx.config.calls.handling = .none then return none
  else if !(← accepts ctx call.method) then return none
  else
    match ctx.isOnStack call.method, deeper, ctx.bodies call.method with
    | false, some solve, some callee =>
      Visit.checkCancelled
      A.calleeSolution? ctx solve call callee (ctx.config.calls.handling == .inContext)
    | _, _, _ => return none

/-- A call is handled with a solution of its callee, which is noted. -/
def takeUp (call : Call V) (s : Solution V) : Visit V V := do
  Visit.modifyHits (·.absorb call.operation.id s.hits)
  Visit.modifyNotes fun n => { n with callees := n.callees.insert call.operation.id s }
  if A.crossesCalls then A.comeBack ctx call s (ctx.config.calls.handling == .inContext)
  else A.callOpaquely ctx.config call

/-- What solves the bodies of callees in a run over a body. -/
def deeperIn : Option (Context V → Run V (Solution V)) :=
  match ctx.config.calls.maxCallChain.toNat - ctx.callStack.length with
  | 0 => none
  | depth + 1 => some (A.solveWithin depth)

/-- The solution that a call is handled with in a machine. -/
def answerIn (call : Call V) (m : Machine V) : Option (Solution V) :=
  (ExceptT.run (A.answer ctx (A.deeperIn ctx) call) m).1.toOption.join

omit [DecidableEq V] in
/-- The call that it is the turn of. -/
def callIn (t : Visit.Turn V) : Option (Call V) :=
  match t.op with
  | .invocation _ method receiver arguments => some (A.callOf ctx t.op method receiver arguments t.seen)
  | _ => none

/-- How a turn of a call is handled: with a solution of the callee, or without one. Nothing is said of other turns. -/
def handledWith (asks : Call V → Bool) (t : Visit.Turn V) : Option (Option (Solution V)) :=
  (A.callIn ctx t).map fun call => if asks call then A.answerIn ctx call t.machine else none

/-- How the visits of a call were handled, one after the other. -/
def visitsOf (asks : Call V → Bool) (turns : List (Visit.Turn V)) (site : OperationId) : List (Option (Solution V)) :=
  (turns.filter (·.op.id = site)).filterMap (A.handledWith ctx asks)

variable {A ctx}

/-- A call looks for the solution of its callee, and then it is handled with it or without one. -/
theorem handleCall_eq_answer (deeper : Option (Context V → Run V (Solution V))) (call : Call V) :
    A.handleCall ctx deeper call = (do
      match ← A.answer ctx deeper call with
      | none => A.callOpaquely ctx.config call
      | some s => A.takeUp ctx call s) := by
  unfold handleCall answer
  split
  · simp
  · rw [bind_assoc]
    refine bind_congr fun accepted => ?_
    cases accepted with
    | false => simp
    | true =>
      simp only [Bool.not_true, Bool.false_eq_true, if_false]
      cases ctx.isOnStack call.method with
      | true => simp
      | false =>
        cases deeper with
        | none => simp
        | some solve =>
          cases ctx.bodies call.method with
          | none => simp
          | some callee =>
            dsimp only
            rw [follow, bind_assoc]
            refine bind_congr fun _ => bind_congr fun found => ?_
            cases found <;> rfl

theorem usualIn_eq : A.usualIn ctx = A.handleCall ctx (A.deeperIn ctx) := by
  unfold usualIn deeperIn
  cases ctx.config.calls.maxCallChain.toNat - ctx.callStack.length <;> rfl

omit [DecidableEq V] in
theorem solution?_leavesBody (filed : Ledger V → Option (Solution V)) (file : Solution V → Ledger V → Ledger V)
    (callee : Graph) (solve : Run V (Solution V)) : Visit.LeavesBody (solution? ctx filed file callee solve) := by
  intro s ledger
  have run (notes : Notes V) : ExceptT.run (solution? ctx filed file callee solve) ⟨s, notes, ledger⟩ = _ :=
    Accord.run_solution filed file callee solve ⟨s, notes, ledger⟩
  simp only [run]
  cases filed ledger with
  | some sol => exact ⟨_, _, fun _ => rfl⟩
  | none =>
    dsimp only
    rcases ledger.reserve? (UInt64.ofNat callee.operationCount) ctx.config.calls.maxNodes with v | _ | claimed
    · exact ⟨_, _, fun _ => rfl⟩
    · exact ⟨_, _, fun _ => rfl⟩
    · dsimp only
      rcases ExceptT.run solve claimed with ⟨e | sol, after⟩
      · exact ⟨_, _, fun _ => rfl⟩
      · exact ⟨_, _, fun _ => rfl⟩

/-- To look for a solution of the callee leaves the body of the caller alone. -/
theorem answer_leavesBody (deeper : Option (Context V → Run V (Solution V))) (call : Call V) :
    Visit.LeavesBody (A.answer ctx deeper call) := by
  have accept : Visit.LeavesBody (accepts ctx call.method : Visit V Bool) := by
    unfold accepts
    split
    · exact .pure _
    · dsimp only
      split
      · exact .bind (.modifyLedger _) fun _ => .pure _
      · exact .pure _
  have solution (solve : Context V → Run V (Solution V)) (callee : Graph) (inContext : Bool) :
      Visit.LeavesBody (A.calleeSolution? ctx solve call callee inContext) := by
    cases inContext with
    | false => exact solution?_leavesBody _ _ _ _
    | true => exact .bind .state fun _ => solution?_leavesBody _ _ _ _
  unfold answer
  split
  · exact .pure _
  · refine accept.bind fun accepted => ?_
    cases accepted with
    | false => exact .pure _
    | true =>
      split
      · exact .pure _
      · split
        · exact .bind .checkCancelled fun _ => solution _ _ _
        · exact .pure _

/-- How a call is answered depends on the state and the ledger. -/
theorem answerIn_congr {call : Call V} {m m' : Machine V} (state : m'.state = m.state) (ledger : m'.ledger = m.ledger) :
    A.answerIn ctx call m' = A.answerIn ctx call m := by
  have aside : Visit.LeavesBody (A.answer ctx (A.deeperIn ctx) call) := answer_leavesBody _ call
  obtain ⟨r, after, run⟩ := aside m.state m.ledger
  have first := run m.notes
  have second := run m'.notes
  rw [← state, ← ledger] at second
  unfold answerIn
  rw [show m' = ⟨m'.state, m'.notes, m'.ledger⟩ from rfl, second, show m = ⟨m.state, m.notes, m.ledger⟩ from rfl, first]

/-! ### What is noted of callees -/

/-- What is noted of callees is the same. -/
def SameCallees (m m' : Machine V) : Prop := m'.notes.callees = m.notes.callees

omit [DecidableEq V] in
theorem sameCallees_steady : Visit.Steady (SameCallees : Machine V → Machine V → Prop) where
  refl _ := rfl
  trans h h' := h'.trans h

omit [DecidableEq V] in
theorem store_sameCallees (e : Entity) (v : V) : Visit.Relates SameCallees (A.store e v) := fun m =>
  (Visit.ensures_update _ m _).2 fun _ _ => rfl

/-- The call is noted with the solution that it is handled with, if there is one. -/
theorem handleCall_callees (call : Call V) (m : Machine V) :
    Visit.Ensures (A.usualIn ctx call) m fun _ m' => m'.notes.callees =
      (A.answerIn ctx call m).elim m.notes.callees (m.notes.callees.insert call.operation.id) := by
  have opaquely : Visit.Relates SameCallees (A.callOpaquely ctx.config call) :=
    callOpaquely_relates sameCallees_steady (P := fun _ => True) (fun e v _ => store_sameCallees e v) (fun _ _ => trivial)
      (fun _ _ => trivial) ctx.config
  have back (s : Solution V) (inContext : Bool) : Visit.Relates SameCallees (A.comeBack ctx call s inContext) :=
    comeBack_relates sameCallees_steady (P := fun _ => True) (fun e v _ => store_sameCallees e v) (fun _ _ => trivial)
      (fun _ _ => trivial) s inContext
  have aside : Visit.LeavesBody (A.answer ctx (A.deeperIn ctx) call) := answer_leavesBody _ call
  obtain ⟨r, after, run⟩ := aside m.state m.ledger
  replace run : ExceptT.run (A.answer ctx (A.deeperIn ctx) call) m = (r, { m with ledger := after }) := run m.notes
  have answered : A.answerIn ctx call m = r.toOption.join := by rw [answerIn, run]
  rw [usualIn_eq, handleCall_eq_answer, Visit.ensures_bind, answered]
  intro found m₁ hrun
  rw [run] at hrun
  cases hrun
  cases found with
  | none => exact opaquely _
  | some s =>
    show Visit.Ensures (A.takeUp ctx call s) _ _
    unfold takeUp
    rw [Visit.ensures_bind, Visit.ensures_modifyHits, Visit.ensures_bind, Visit.ensures_modifyNotes]
    split
    · exact back s _ _
    · exact opaquely _

/-! ### What analyses do at calls -/

/-- The analysis leaves some calls to the usual way to handle them, which begins in the state and with the ledger at hand.
What it does itself says nothing of callees. -/
def AsksUsual (A : Analysis V) (ctx : Context V) (asks : Call V → Bool) : Prop :=
  ∀ usual call m, Visit.Ensures (A.invoke ctx usual call) m fun _ m' =>
    if asks call = true then ∃ v m₁ m₂, m₁.state = m.state ∧ m₁.ledger = m.ledger ∧ SameCallees m m₁ ∧
      ExceptT.run (usual call) m₁ = (.ok v, m₂) ∧ SameCallees m₂ m'
    else SameCallees m m'

omit [DecidableEq V] in
/-- An analysis that leaves all calls to the usual way. -/
theorem asksUsual_of_usual (h : A.invoke ctx = fun usual call => usual call) : A.AsksUsual ctx fun _ => true := by
  intro usual call m v m' run
  rw [h] at run
  exact ⟨v, m, m', rfl, rfl, rfl, run, rfl⟩

/-- An analysis that leaves what is noted of callees to the usual way to handle calls. -/
structure LeavesCallees (A : Analysis V) (ctx : Context V) (asks : Call V → Bool) : Prop where
  steps : A.StepsRelate SameCallees ctx
  assign : ∀ op e v, Visit.Relates SameCallees (A.assign ctx op e v)
  asksUsual : A.AsksUsual ctx asks

variable {asks : Call V → Bool}

theorem LeavesCallees.invoke (h : A.LeavesCallees ctx asks) (call : Call V) {m m₀ : Machine V} (state : m₀.state = m.state)
    (ledger : m₀.ledger = m.ledger) (same : SameCallees m m₀) :
    Visit.Ensures (A.invoke ctx (A.usualIn ctx) call) m₀ fun _ m' => m'.notes.callees =
      (if asks call then A.answerIn ctx call m else none).elim m.notes.callees
        (m.notes.callees.insert call.operation.id) := by
  refine (h.asksUsual (A.usualIn ctx) call m₀).mono fun v m' does => ?_
  cases hasks : asks call with
  | false =>
    rw [hasks, if_neg (by decide)] at does
    exact Eq.trans does same
  | true =>
    rw [hasks, if_pos rfl] at does
    obtain ⟨v, m₁, m₂, state₁, ledger₁, before, run, after⟩ := does
    rw [if_pos rfl, ← answerIn_congr state ledger, ← answerIn_congr state₁ ledger₁, ← same, ← before,
      ← handleCall_callees call m₁ v m₂ run]
    exact after

/-! ### Courses -/

theorem visitsOf_append (c d : List (Visit.Turn V)) (site : OperationId) :
    A.visitsOf ctx asks (c ++ d) site = A.visitsOf ctx asks c site ++ A.visitsOf ctx asks d site := by
  rw [visitsOf, List.filter_append, List.filterMap_append]
  rfl

/-- What is noted of the callee of each call is what its last visit that was followed came to, or what was noted before. -/
def Recalled (A : Analysis V) (ctx : Context V) (asks : Call V → Bool) (m : Machine V) (c : List (Visit.Turn V)) (m' : Machine V) :
    Prop :=
  ∀ site, m'.notes.callees.find? site =
    ((A.visitsOf ctx asks c site).filterMap id).getLast?.or (m.notes.callees.find? site)

theorem Recalled.trans {m m' m'' : Machine V} {c d : List (Visit.Turn V)} (h : Recalled A ctx asks m c m')
    (h' : Recalled A ctx asks m' d m'') : Recalled A ctx asks m (c ++ d) m'' := by
  intro site
  rw [h' site, h site, visitsOf_append, List.filterMap_append, List.getLast?_append, Option.or_assoc]

theorem recalled_of_same {m m' : Machine V} (h : SameCallees m m') : Recalled A ctx asks m [] m' := fun site => by
  rw [h]
  rfl

theorem turn_recalled (h : A.LeavesCallees ctx asks) (op : Operation) (seen : List (Seen V)) (m : Machine V) :
    Visit.Ensures (A.own ctx (A.usualIn ctx) op seen) m fun v m' =>
      Recalled A ctx asks m [⟨op, seen, m⟩] (m'.recorded op.id v) := by
  by_cases call : ∃ info method receiver arguments, op = .invocation info method receiver arguments
  · obtain ⟨info, method, receiver, arguments, rfl⟩ := call
    show Visit.Ensures (do
      Visit.modifyHits (·.withdraw (Operation.invocation info method receiver arguments).id)
      A.invoke ctx (A.usualIn ctx) (A.callOf ctx (.invocation info method receiver arguments) method receiver arguments seen)) m _
    rw [Visit.ensures_bind, Visit.ensures_modifyHits]
    generalize hcall : A.callOf ctx (.invocation info method receiver arguments) method receiver arguments seen = call
    refine Visit.Ensures.mono (h.invoke call (m := m) rfl rfl rfl) ?_
    intro v m' callees site
    show m'.notes.callees.find? site = _
    rw [callees]
    have own : call.operation = .invocation info method receiver arguments := by
      rw [← hcall]
      rfl
    have handled : A.handledWith ctx asks ⟨.invocation info method receiver arguments, seen, m⟩ =
        some (if asks call then A.answerIn ctx call m else none) := by
      rw [← hcall]
      rfl
    unfold visitsOf
    rw [own]
    by_cases hsite : (Operation.invocation info method receiver arguments).id = site
    · rw [List.filter_cons_of_pos (by simpa using hsite), List.filter_nil, List.filterMap_cons_some handled, hsite]
      cases (if asks call then A.answerIn ctx call m else none) with
      | none => rfl
      | some s => exact FinMap.find?_insert_self _ _ _
    · rw [List.filter_cons_of_neg (by simpa using hsite), List.filter_nil]
      cases (if asks call then A.answerIn ctx call m else none) with
      | none => rfl
      | some s => exact FinMap.find?_insert_ne _ _ (Ne.symm hsite)
  · have notCall : ∀ info method receiver arguments, op ≠ .invocation info method receiver arguments :=
      fun info method receiver arguments heq => call ⟨info, method, receiver, arguments, heq⟩
    refine (own_relates sameCallees_steady (fun _ _ _ => rfl) (fun _ _ => rfl) h.steps h.assign notCall seen m).mono
      fun v m' same site => ?_
    have nothing : A.callIn ctx ⟨op, seen, m⟩ = none := by
      cases op with
      | invocation => exact absurd rfl (notCall _ _ _ _)
      | _ => rfl
    have none : A.visitsOf ctx asks [⟨op, seen, m⟩] site = [] := by
      unfold visitsOf
      by_cases hsite : op.id = site
      · rw [List.filter_cons_of_pos (by simpa using hsite), List.filter_nil, List.filterMap_cons, handledWith, nothing]
        rfl
      · rw [List.filter_cons_of_neg (by simpa using hsite)]
        rfl
    rw [none]
    show m'.notes.callees.find? site = _
    rw [same]
    rfl

theorem LeavesCallees.keepsPace (h : A.LeavesCallees ctx asks) : KeepsPace A ctx (A.usualIn ctx) (Recalled A ctx asks) where
  refl m := recalled_of_same rfl
  trans := Recalled.trans
  before m b := recalled_of_same rfl
  scope locals m := by
    have left : Visit.Relates SameCallees (A.leaveScope locals) := sameCallees_steady.forM fun _ _ =>
      sameCallees_steady.bind sameCallees_steady.notes fun _ m => (Visit.ensures_update _ m _).2 fun _ _ => rfl
    exact (left m).mono fun _ _ same => recalled_of_same same
  visit op _ m := visit_turns (fun _ => recalled_of_same rfl) Recalled.trans (turn_recalled h) op m

/-- A solution keeps, of each call, the callee's solution of its last visit that was followed. -/
theorem LeavesCallees.calleeAt (h : A.LeavesCallees ctx asks) {ledger ledger' : Ledger V} {sol : Solution V}
    (run : (A.solve ctx).run ledger = (.ok sol, ledger')) (site : OperationId) :
    sol.calleeAt site = ((A.visitsOf ctx asks (A.course ctx ledger) site).filterMap id).getLast? := by
  obtain ⟨p, m, recalled, rfl, -⟩ := solve_keepsPace h.keepsPace (fun _ _ => recalled_of_same rfl) run
  show m.notes.callees.entries.lookup site = _
  rw [FinMap.lookup_entries, recalled site]
  exact Option.or_none

/-! ### The analyses -/

theorem pointsTo_leavesCallees (ctx : Context PointsTo) : pointsTo.LeavesCallees ctx fun _ => true where
  steps := pointsTo_stepsRelate sameCallees_steady ctx
  assign _ e v := by
    cases e with
    | some e => exact sameCallees_steady.bind (store_sameCallees (A := pointsTo) e v) fun _ => sameCallees_steady.pure _
    | none => exact sameCallees_steady.pure _
  asksUsual := asksUsual_of_usual rfl

theorem copies_leavesCallees (ctx : Context CopyClass) : copies.LeavesCallees ctx fun _ => true where
  steps := copies_stepsRelate sameCallees_steady ctx
  assign _ e v := by
    cases e with
    | some e =>
      exact sameCallees_steady.bind (store_sameCallees (A := copies) e v) fun _ =>
        sameCallees_steady.bind sameCallees_steady.state fun _ => sameCallees_steady.pure _
    | none => exact sameCallees_steady.pure _
  asksUsual := asksUsual_of_usual rfl

theorem contents_leavesCallees (ctx : Context Content) : contents.LeavesCallees ctx fun _ => true where
  steps := contents_stepsRelate sameCallees_steady ctx
  assign _ e _ := by
    cases e with
    | some e =>
      exact sameCallees_steady.bind sameCallees_steady.state fun _ =>
        sameCallees_steady.bind (fun m => (Visit.ensures_setState _ m _).2 rfl) fun _ => sameCallees_steady.pure _
    | none => exact sameCallees_steady.pure _
  asksUsual := asksUsual_of_usual rfl

namespace TaintAnalysis

/-- The analysis of taint knows what sanitizers and sources do. -/
def leavesToUsual (rules : TaintRules) (call : Call Taint) : Bool :=
  !rules.isSanitizer call.method && !rules.isSourceMethod call.method

/-- What happens before a call is left to the usual way: the state, the ledger and what is noted of callees stay. -/
def Beforehand (m m' : Machine Taint) : Prop := m'.state = m.state ∧ m'.ledger = m.ledger ∧ SameCallees m m'

theorem beforehand_steady : Visit.Steady Beforehand where
  refl _ := ⟨rfl, rfl, rfl⟩
  trans h h' := ⟨h'.1.trans h.1, h'.2.1.trans h.2.1, h'.2.2.trans h.2.2⟩

/-- A call of no sanitizer first gets hits. Unless it is a source, it is then handled in the usual way. -/
theorem invoke_of_not_sanitizer {rules : TaintRules} {ctx : Context Taint} {usual : Call Taint → Visit Taint Taint}
    {call : Call Taint} (h : rules.isSanitizer call.method = false) :
    invoke rules ctx usual call =
      (if rules.isSink call.method then recordHits rules ctx call else pure ()) >>= fun _ =>
        if rules.isSourceMethod call.method then bringIn ctx call.method call.operation
        else usual call >>= fun v => (do
          if v = .tainted then passOn call.operation v
          else
            Visit.setOrigins call.operation.id FinSet.empty
            return v : Visit Taint Taint) := by
  rw [invoke, h]
  cases rules.isSink call.method <;> rfl

theorem asksUsual (rules : TaintRules) (ctx : Context Taint) : (taint rules).AsksUsual ctx (leavesToUsual rules) := by
  intro usual call m
  have origins (m : Machine Taint) (o) : SameCallees m { m with notes := { m.notes with operationOrigins := o } } := rfl
  have clean (v : Taint) : Visit.Relates SameCallees (do
      Visit.setOrigins call.operation.id FinSet.empty
      return v : Visit Taint Taint) :=
    sameCallees_steady.bind (setOrigins_relates origins _ _) fun _ => sameCallees_steady.pure _
  have after (v : Taint) : Visit.Relates SameCallees (do
      if v = .tainted then passOn call.operation v
      else
        Visit.setOrigins call.operation.id FinSet.empty
        return v : Visit Taint Taint) := by
    split
    · exact passOn_relates sameCallees_steady origins _ _
    · exact clean v
  have hits : Visit.Relates Beforehand (do if rules.isSink call.method then recordHits rules ctx call : Visit Taint Unit) := by
    split
    · exact recordHits_relates beforehand_steady (fun _ _ => ⟨rfl, rfl, rfl⟩) rules ctx call
    · exact beforehand_steady.pure _
  show Visit.Ensures (invoke rules ctx usual call) m _
  unfold leavesToUsual
  cases sanitizer : rules.isSanitizer call.method with
  | true =>
    simp only [invoke, sanitizer, if_true]
    exact clean _ m
  | false =>
    rw [invoke_of_not_sanitizer sanitizer, Visit.ensures_bind]
    refine (hits m).mono fun _ m₁ noted => ?_
    obtain ⟨state, ledger, same⟩ := noted
    cases source : rules.isSourceMethod call.method with
    | true => exact (bringIn_relates sameCallees_steady origins ctx _ _ m₁).mono fun _ _ => sameCallees_steady.trans same
    | false =>
      rw [if_neg Bool.false_ne_true, Visit.ensures_bind]
      intro v m₂ run
      exact (after v m₂).mono fun _ _ same' => ⟨v, m₁, m₂, state, ledger, same, run, same'⟩

end TaintAnalysis

theorem taint_leavesCallees (rules : TaintRules) (ctx : Context Taint) :
    (taint rules).LeavesCallees ctx (TaintAnalysis.leavesToUsual rules) where
  steps := taint_stepsRelate sameCallees_steady (fun _ _ => rfl) (fun _ _ => rfl) rules ctx
  assign op e v m := (TaintAnalysis.assign_writes op e v m).mono fun _ m' does => by
    obtain ⟨-, _, _, rfl⟩ := does
    rfl
  asksUsual := TaintAnalysis.asksUsual rules ctx

/-! ### The last visit -/

/-- The last success of a list is its last member, exactly if nothing succeeded in case the last member did not. -/
theorem last_iff_of_filterMap {l : List (Option α)} :
    (∀ a, (l.filterMap id).getLast? = some a ↔ l.getLast? = some (some a)) ↔
      (l.getLast? = some none → ∀ x ∈ l, x = none) := by
  rcases List.eq_nil_or_concat l with rfl | ⟨init, last, rfl⟩
  · simp
  · rw [List.concat_eq_append, List.filterMap_append, List.getLast?_concat]
    cases last with
    | some a => simp
    | none =>
      -- The last one that succeeded is then one of the others, if there is one.
      have before : (init.filterMap id ++ [none].filterMap id).getLast? = (init.filterMap id).getLast? := by
        rw [List.filterMap_cons_none rfl, List.filterMap_nil, List.append_nil]
      have nothing : (∀ a, (init.filterMap id).getLast? ≠ some a) ↔ ∀ x ∈ init, x = none := by
        rw [← Option.eq_none_iff_forall_ne_some, List.getLast?_eq_none_iff, List.filterMap_eq_nil_iff]
        rfl
      simpa [before, or_imp, forall_and] using nothing

/-- The callee's solution of a call in the solution of a body is that of the call's last visit that was followed. So the
call has the solution that its last visit was handled with, and none if the last visit was opaque, exactly if no visit was
followed in case the last one was not. -/
def Recalls (A : Analysis V) (asks : Call V → Bool) : Prop :=
  ∀ (ctx : Context V) (ledger ledger' : Ledger V) (sol : Solution V) (site : OperationId),
    (A.solve ctx).run ledger = (.ok sol, ledger') →
    sol.calleeAt site = ((A.visitsOf ctx asks (A.course ctx ledger) site).filterMap id).getLast? ∧
    ((∀ s, sol.calleeAt site = some s ↔ (A.visitsOf ctx asks (A.course ctx ledger) site).getLast? = some (some s)) ↔
      ((A.visitsOf ctx asks (A.course ctx ledger) site).getLast? = some none →
        ∀ handled ∈ A.visitsOf ctx asks (A.course ctx ledger) site, handled = none))

theorem recalls_of_leavesCallees (h : ∀ ctx, A.LeavesCallees ctx asks) : A.Recalls asks := by
  intro ctx ledger ledger' sol site run
  have kept := (h ctx).calleeAt run site
  refine ⟨kept, ?_⟩
  rw [kept]
  exact last_iff_of_filterMap

/-- Each analysis keeps the callee's solution of the last visit of a call that was followed. That a call has the callee's
solution that its last visit was handled with, and none if that visit was opaque, fails for the calls that were followed
once and are opaque at last. -/
theorem analyses_recall (rules : TaintRules) :
    pointsTo.Recalls (fun _ => true) ∧ copies.Recalls (fun _ => true) ∧ contents.Recalls (fun _ => true) ∧
      (taint rules).Recalls (TaintAnalysis.leavesToUsual rules) :=
  ⟨recalls_of_leavesCallees pointsTo_leavesCallees, recalls_of_leavesCallees copies_leavesCallees,
    recalls_of_leavesCallees contents_leavesCallees, recalls_of_leavesCallees (taint_leavesCallees rules)⟩

/-! ### A call in a loop -/

namespace Budget

open Nodes

/-- The callee. -/
def touch : Symbol := Symbol.method "C" "touch" none

/-- Its parameter. -/
def parameter : Symbol := ⟨"p", .parameter, node, none, .value, 0⟩

/-- Reads its parameter. -/
def callee : Graph :=
  ⟨touch, [parameter], [⟨⟨0⟩, .entry, [.parameterRef (info 5 node) parameter], none, [⟨⟨1⟩, .regular⟩], []⟩,
    .bare ⟨1⟩ .exit]⟩

/-- Calls it on a node again and again, each time before it creates the node. -/
def graph : Graph :=
  ⟨main, [], [⟨⟨0⟩, .entry, [], none, [⟨⟨1⟩, .regular⟩], []⟩,
    ⟨⟨1⟩, .block, [.invocation (info 1 none) touch none [⟨some parameter, ref 0 "x", .value⟩],
      .assignment (info 4 node) (ref 2 "x") (.objectCreation (info 3 node) [])], none,
      [⟨⟨1⟩, .regular⟩, ⟨⟨2⟩, .regular⟩], []⟩,
    .bare ⟨2⟩ .exit]⟩

/-- The callee's operations may be visited for one call only. -/
def context : Context PointsTo :=
  Context.start graph { Config.usual with calls := ⟨.inContext, 3, 1⟩ } fun m => if m = touch then some callee else none

end Budget

open Nodes Budget in
/-- The callee is analysed for the first visit of the call. The last visit comes with a node, and there is nothing left of
the budget; but the call keeps the solution of the callee without a node. -/
theorem not_pointsTo_forgets : ∃ sol ledger inner,
    (pointsTo.solve context).run (Ledger.start false) = (.ok sol, ledger) ∧ sol.calleeAt ⟨1⟩ = some inner ∧
    inner.owner = touch ∧
    (pointsTo.visitsOf context (fun _ => true) (pointsTo.course context (Ledger.start false)) ⟨1⟩).getLast? = some none := by
  obtain ⟨sol, ledger, inner, run, found, owner⟩ := exists_of_inspected
    (r := (pointsTo.solve context).run (Ledger.start false)) (g := fun sol => sol.calleeAt ⟨1⟩)
    (f := fun inner => inner.owner) (y := touch) (by decide +kernel)
  have last : ((pointsTo.visitsOf context (fun _ => true) (pointsTo.course context (Ledger.start false)) ⟨1⟩).getLast?.map
      Option.isSome) = some false := by
    decide +kernel
  obtain ⟨handled, hlast, opaquely⟩ := Option.map_eq_some_iff.1 last
  rw [Option.isSome_eq_false_iff, Option.isNone_iff_eq_none] at opaquely
  exact ⟨sol, ledger, inner, run, found, owner, opaquely ▸ hlast⟩

end Analysis

end Dataflow
