import Dataflow.Proofs.Visit.Frame

/-!
# What a visit records

The values of operations and the states before them are noted by the walk over the operations, and only by it: an analysis
and the handling of calls note neither. So what is noted can be read off the trees that were visited, whatever is known about
the methods that are called.

## The notions

* `Machine.SameRecords`: the same values and states are noted.
* `Notes.Adds`: states before some operations and values of some operations were noted, and no others.

## What is proved

The steps of the four analyses note neither values nor states (`Analysis.pointsTo_keepsRecords` and so on), however calls are
handled (`Analysis.own_keepsRecords`). So a visit of an operation notes the values of the operations in its tree
(`Analysis.visit_adds`), and a visit of a block also the states before those that stand for themselves
(`Analysis.runBlock_adds`).
-/

namespace Dataflow

variable {V α : Type}

/-- The same values and states are noted. -/
def Machine.SameRecords (m m' : Machine V) : Prop :=
  m'.notes.values = m.notes.values ∧ m'.notes.before = m.notes.before

namespace Visit

theorem sameRecords_frame : Frame (Machine.SameRecords : Machine V → Machine V → Prop) where
  refl _ := ⟨rfl, rfl⟩
  trans h h' := ⟨h'.1.trans h.1, h'.2.trans h.2⟩
  ledger _ _ := ⟨rfl, rfl⟩
  hits _ _ := ⟨rfl, rfl⟩
  callees _ _ := ⟨rfl, rfl⟩

/-- The visit notes neither values nor states. -/
def KeepsRecords (x : Visit V α) : Prop := Relates Machine.SameRecords x

theorem keepsRecords_setState (s : State V) : KeepsRecords (setState s) :=
  fun m => (ensures_setState s m _).2 ⟨rfl, rfl⟩

theorem keepsRecords_update (f : State V → Checked (State V)) : KeepsRecords (update f) :=
  fun m => (ensures_update f m _).2 fun _ _ => ⟨rfl, rfl⟩

end Visit

namespace Analysis

/-! ### The analyses -/

/-- An analysis notes neither values nor states. -/
structure KeepsRecords (A : Analysis V) (ctx : Context V) : Prop where
  steps : A.StepsRelate Machine.SameRecords ctx
  assign : ∀ op e v, Visit.KeepsRecords (A.assign ctx op e v)

theorem pointsTo_keepsRecords (ctx : Context PointsTo) : pointsTo.KeepsRecords ctx where
  steps := pointsTo_stepsRelate Visit.sameRecords_frame.toSteady ctx
  assign _ e _ := by
    cases e with
    | some e => exact Visit.sameRecords_frame.bind (Visit.keepsRecords_update _) fun _ => Visit.sameRecords_frame.pure _
    | none => exact Visit.sameRecords_frame.pure _

theorem copies_keepsRecords (ctx : Context CopyClass) : copies.KeepsRecords ctx where
  steps := copies_stepsRelate Visit.sameRecords_frame.toSteady ctx
  assign _ e _ := by
    cases e with
    | some e => exact Visit.sameRecords_frame.bind (Visit.keepsRecords_update _) fun _ =>
        Visit.sameRecords_frame.bind Visit.sameRecords_frame.state fun _ => Visit.sameRecords_frame.pure _
    | none => exact Visit.sameRecords_frame.pure _

theorem contents_keepsRecords (ctx : Context Content) : contents.KeepsRecords ctx where
  steps := contents_stepsRelate Visit.sameRecords_frame.toSteady ctx
  assign _ e _ := by
    cases e with
    | some e => exact Visit.sameRecords_frame.bind Visit.sameRecords_frame.state fun _ =>
        Visit.sameRecords_frame.bind (Visit.keepsRecords_setState _) fun _ => Visit.sameRecords_frame.pure _
    | none => exact Visit.sameRecords_frame.pure _

theorem taint_keepsRecords (rules : TaintRules) (ctx : Context Taint) : (taint rules).KeepsRecords ctx where
  steps := taint_stepsRelate Visit.sameRecords_frame.toSteady Visit.sameRecords_frame.hits (fun _ _ => ⟨rfl, rfl⟩) rules ctx
  assign op e v m := (TaintAnalysis.assign_writes op e v m).mono fun _ m' after => by
    obtain ⟨-, _, _, rfl⟩ := after
    exact ⟨rfl, rfl⟩

end Analysis

/-! ### What was noted -/

/-- States before some operations and values of some operations were noted, and no others. -/
structure Notes.Adds (roots ids : List OperationId) (n n' : Notes V) : Prop where
  before : ∀ i, (n'.before.find? i).isSome ↔ (n.before.find? i).isSome ∨ i ∈ roots
  values : ∀ i, (n'.values.find? i).isSome ↔ (n.values.find? i).isSome ∨ i ∈ ids

namespace Notes.Adds

variable {roots roots' ids ids' : List OperationId} {n n' n'' : Notes V}

theorem trans (h : Adds roots ids n n') (h' : Adds roots' ids' n' n'') : Adds (roots ++ roots') (ids ++ ids') n n'' where
  before i := by rw [h'.before, h.before, List.mem_append, or_assoc]
  values i := by rw [h'.values, h.values, List.mem_append, or_assoc]

theorem of_same {m m' : Machine V} (h : m.SameRecords m') : Adds [] [] m.notes m'.notes where
  before i := by simp [h.2]
  values i := by simp [h.1]

theorem refl (n : Notes V) : Adds [] [] n n := ⟨fun _ => by simp, fun _ => by simp⟩

/-- A map has one key more when something is put in. -/
theorem isSome_insert {α β : Type} [Ord α] [Std.TransOrd α] [Std.LawfulEqOrd α] (m : FinMap α β) (k : α) (v : β) (i : α) :
    ((m.insert k v).find? i).isSome ↔ (m.find? i).isSome ∨ i ∈ [k] := by
  by_cases h : i = k
  · simp [h]
  · simp [h, FinMap.find?_insert_ne m v h]

theorem value (n : Notes V) (i : OperationId) (v : V) : Adds [] [i] n { n with values := n.values.insert i v } :=
  ⟨fun _ => by simp, isSome_insert _ _ _⟩

theorem state (n : Notes V) (i : OperationId) (s : State V) : Adds [i] [] n { n with before := n.before.insert i s } :=
  ⟨isSome_insert _ _ _, fun _ => by simp⟩

end Notes.Adds

namespace Analysis

variable {A : Analysis V} {ctx : Context V} {usual : Call V → Visit V V} [DecidableEq V]
variable (H : A.KeepsRecords ctx) (husual : IsUsual A ctx usual)
include H husual

/-- What an operation does after its operands were visited notes neither values nor states. -/
theorem own_keepsRecords (op : Operation) (seen : List (Seen V)) : Visit.KeepsRecords (A.own ctx usual op seen) := by
  have call (c : Call V) : Visit.KeepsRecords (usual c) := by
    obtain ⟨deeper, rfl⟩ := husual
    exact handleCall_relates Visit.sameRecords_frame (P := fun _ => True) (fun _ _ _ => Visit.keepsRecords_update _)
      (fun _ _ => trivial) (fun _ _ => trivial) deeper
  have other (notCall : ∀ info method receiver arguments, op ≠ .invocation info method receiver arguments) :
      Visit.KeepsRecords (A.own ctx usual op seen) :=
    own_relates Visit.sameRecords_frame.toSteady (fun _ _ _ => ⟨rfl, rfl⟩) (fun _ _ => ⟨rfl, rfl⟩) H.steps H.assign notCall seen
  cases op
  case invocation info method receiver arguments =>
    exact Visit.sameRecords_frame.bind (Visit.sameRecords_frame.modifyHits _) fun _ => H.steps.invoke usual _ (call _)
  all_goals exact other fun _ _ _ _ same => Operation.noConfusion same

omit H husual [DecidableEq V] in
/-- Visits of operands note the values of the operations in their trees. -/
theorem trail_adds {ops : List Operation} {m m' : Machine V} {seen : List (Seen V)}
    (trail : Trail (fun op m _ m' => Notes.Adds [] (op.subtree.map (·.id)) m.notes m'.notes) ops m seen m') :
    Notes.Adds [] (Operation.idsIn ops) m.notes m'.notes := by
  induction trail with
  | nil m => exact .refl _
  | cons first _ ih =>
    rw [Operation.idsIn_cons]
    exact first.trans ih

/-- A visit of an operation notes the values of the operations in its tree. -/
theorem visit_adds (op : Operation) (m : Machine V) :
    Visit.Ensures (A.visit ctx usual op) m fun _ m' => Notes.Adds [] (op.subtree.map (·.id)) m.notes m'.notes := by
  refine visit_ensures (T := fun op m _ m' => Notes.Adds [] (op.subtree.map (·.id)) m.notes m'.notes) ?_ op m
  intro op m seen m₁ trail v m₂ run
  have own := Notes.Adds.of_same (own_keepsRecords H husual op seen m₁ v m₂ run)
  rw [Operation.map_id_subtree]
  simpa using (trail_adds trail).trans (own.trans (.value m₂.notes op.id v))

/-- A visit of a block notes the states before its operations and the values of all operations in them. -/
theorem runBlock_adds (b : Block) (s : State V) (m : Machine V) :
    Visit.Ensures (A.runBlock ctx usual b s) m fun _ m' =>
      Notes.Adds (b.allOperations.map (·.id)) (Operation.idsIn b.allOperations) m.notes m'.notes := by
  have operations (ops : List Operation) (m : Machine V) : Visit.Ensures (ops.forM fun op => do
      Visit.recordBefore op.id
      let _ ← A.visit ctx usual op) m fun _ m' => Notes.Adds (ops.map (·.id)) (Operation.idsIn ops) m.notes m'.notes := by
    induction ops generalizing m with
    | nil => exact (Visit.ensures_forM_nil _ _ _).2 (.refl _)
    | cons op ops ih =>
      rw [Visit.ensures_forM_cons, Visit.ensures_bind, Visit.ensures_recordBefore, Visit.ensures_bind]
      refine (visit_adds H husual op _).mono fun v m₁ visited => (Visit.ensures_pure _ _ _).2 ((ih m₁).mono fun _ m₂ rest => ?_)
      rw [Operation.idsIn_cons, List.map_cons]
      exact ((Notes.Adds.state m.notes op.id m.state).trans visited).trans rest
  have scope : Visit.KeepsRecords (A.leaveScope b.leavingScope) :=
    Visit.sameRecords_frame.forM fun _ _ => Visit.sameRecords_frame.bind Visit.sameRecords_frame.notes fun _ =>
      Visit.keepsRecords_update _
  unfold runBlock
  rw [Visit.ensures_bind, Visit.ensures_setState, Visit.ensures_bind]
  refine (operations b.allOperations _).mono fun _ m₁ visited => ?_
  rw [Visit.ensures_bind]
  refine (scope m₁).mono fun _ m₂ left => ?_
  rw [Visit.ensures_state]
  simpa using visited.trans (.of_same left)

end Analysis

end Dataflow
