import Dataflow.Proofs.Calls.Escape

/-!
# What steps of an analysis leave as it is

Variables, temporaries and receivers have no aliases. So a step of an analysis that does not store into one of them
leaves it as it is, and this goes for calls as well: what a callee or unknown code does to storage of the caller's
method, it does by way of what is passed by reference.

## The notions

* `Visit.Preserves`: a visit leaves some entities as they are, and notes neither values nor states.
* `Analysis.PreservesLocals`: what each step of an analysis leaves as it is.

## What is proved

However a call is handled, it preserves the storage of methods that it does not pass by reference
(`Analysis.handleCall_preserves`). The analyses of references, literal content and taint preserve locals
(`Analysis.pointsTo_preservesLocals` and so on), the one of content as long as it knows of no copies.
-/

namespace Dataflow

variable {V α β : Type}

/-! ### Visits -/

namespace Visit

/-- The visit leaves some entities as they are, and notes neither values nor states. -/
def Preserves (K : Entity → Prop) (x : Visit V α) : Prop :=
  ∀ m, Ensures x m fun _ m' => (∀ e, K e → m'.state.find? e = m.state.find? e) ∧
    m'.notes.values = m.notes.values ∧ m'.notes.before = m.notes.before

namespace Preserves

variable {K K' : Entity → Prop} {x : Visit V α} {f : α → Visit V β}

theorem frame : Frame fun m m' : Machine V => (∀ e, K e → m'.state.find? e = m.state.find? e) ∧
    m'.notes.values = m.notes.values ∧ m'.notes.before = m.notes.before where
  refl _ := ⟨fun _ _ => rfl, rfl, rfl⟩
  trans h h' := ⟨fun e he => (h'.1 e he).trans (h.1 e he), h'.2.1.trans h.2.1, h'.2.2.trans h.2.2⟩
  ledger _ _ := ⟨fun _ _ => rfl, rfl, rfl⟩
  hits _ _ := ⟨fun _ _ => rfl, rfl, rfl⟩
  callees _ _ := ⟨fun _ _ => rfl, rfl, rfl⟩

theorem mono (h : Preserves K x) (hK : ∀ e, K' e → K e) : Preserves K' x :=
  fun m => (h m).mono fun _ _ kept => ⟨fun e he => kept.1 e (hK e he), kept.2⟩

theorem pure (a : α) : Preserves K (pure a : Visit V α) := frame.pure a

theorem bind (h : Preserves K x) (hf : ∀ a, Preserves K (f a)) : Preserves K (x >>= f) := frame.bind h hf

theorem update {f : State V → Checked (State V)} (h : ∀ s t, f s = .ok t → ∀ e, K e → t.find? e = s.find? e) :
    Preserves K (update f) :=
  fun m => (ensures_update f m _).2 fun s hs => ⟨h m.state s hs, rfl, rfl⟩

theorem modifyNotes {f : Notes V → Notes V} (h : ∀ n, (f n).values = n.values ∧ (f n).before = n.before) :
    Preserves K (modifyNotes f) :=
  fun m => (ensures_modifyNotes f m _).2 ⟨fun _ _ => rfl, h _⟩

theorem modifyHits (f : HitLog → HitLog) : Preserves K (modifyHits f : Visit V Unit) := frame.modifyHits f

end Preserves

end Visit

/-- A write to other storage leaves the storage of a method as it is. -/
theorem State.find?_write_of_isMethodLocal (D : Domain V) (v : V) (s : State V) {e a : Entity} (h : a.isMethodLocal = true)
    (hne : a ≠ e) : (write D e v s).find? a = s.find? a := by
  rw [find?_write, if_neg hne, if_neg (by simp [Entity.mayAlias_of_isMethodLocal (.inr h) hne.symm])]

namespace Analysis

/-! ### Calls -/

section Calls

variable {A : Analysis V} {K : Entity → Prop} (plain : A.write = fun e v s => .ok (State.write A.domain e v s))
variable (locals : ∀ e, K e → e.isMethodLocal = true)
include plain locals

/-- A store to other storage. -/
theorem store_preserves (e : Entity) (v : V) (h : ¬K e) : Visit.Preserves K (A.store e v) := by
  refine .update fun s t ht a ha => ?_
  rw [plain] at ht
  obtain rfl := Except.ok.inj ht
  refine State.find?_write_of_isMethodLocal _ _ _ (locals a ha) ?_
  rintro rfl
  exact h ha

/-- However a call is handled, storage of methods that it does not pass by reference stays as it is. -/
theorem handleCall_preserves [DecidableEq V] {ctx : Context V} {call : Call V}
    (unpassed : ∀ e, K e → e ∉ passedStorage call) (deeper : Option (Context V → Run V (Solution V))) :
    Visit.Preserves K (A.handleCall ctx deeper call) :=
  handleCall_relates Visit.Preserves.frame (store_preserves plain locals)
    (fun e nonlocal kept => by simp [locals e kept] at nonlocal) (fun e passed kept => unpassed e kept passed) deeper

end Calls

/-! ### The analyses -/

/-- What the steps of an analysis leave as it is: a store changes no storage of methods but its target, a call does what
the usual way to handle it does, and all other steps leave the state as it is. -/
structure PreservesLocals (A : Analysis V) (ctx : Context V) : Prop where
  /-- A write changes what may be the same storage. -/
  write : A.write = fun e v s => .ok (State.write A.domain e v s)
  /-- At the end of a scope nothing else is forgotten. -/
  forget : A.forget = fun e s => .ok (s.erase e)
  reference : ∀ op e, Visit.Preserves (fun _ => True) (A.reference ctx op e)
  assign : ∀ op e v, Visit.Preserves (fun a => a.isMethodLocal = true ∧ e ≠ some a) (A.assign ctx op e v)
  create : ∀ op vs, Visit.Preserves (fun _ => True) (A.create ctx op vs)
  createArray : ∀ op, Visit.Preserves (fun _ => True) (A.createArray ctx op)
  binary : ∀ op operator l r, Visit.Preserves (fun _ => True) (A.binary ctx op operator l r)
  convert : ∀ op v, Visit.Preserves (fun _ => True) (A.convert op v)
  invoke : ∀ usual call K, Visit.Preserves K (usual call) → Visit.Preserves K (A.invoke ctx usual call)
  /-- What is stored into storage of a method is in it afterwards, and it is the value of the store. -/
  stored : ∀ op e v m, e.isMethodLocal = true →
    Visit.Ensures (A.assign ctx op (some e) v) m fun w m' => w = v ∧ m'.state.find? e = some v

/-- A write to an entity of a method. -/
theorem find?_write_self (D : Domain V) (v : V) (s : State V) {e : Entity} (h : e.isMethodLocal = true) :
    (State.write D e v s).find? e = some v := by
  rw [State.write_of_isMethodLocal D v s h]
  exact FinMap.find?_insert_self _ _ _

/-- Locals are preserved by steps that leave states alone, if stores change no storage of methods but their targets. -/
theorem preservesLocals_of_stepsRelate {A : Analysis V} {ctx : Context V}
    (write : A.write = fun e v s => .ok (State.write A.domain e v s)) (forget : A.forget = fun e s => .ok (s.erase e))
    (steps : ∀ K : Entity → Prop, A.StepsRelate (fun m m' => (∀ e, K e → m'.state.find? e = m.state.find? e) ∧
      m'.notes.values = m.notes.values ∧ m'.notes.before = m.notes.before) ctx)
    (assign : ∀ op e v, Visit.Preserves (fun a => a.isMethodLocal = true ∧ e ≠ some a) (A.assign ctx op e v))
    (stored : ∀ op e v m, e.isMethodLocal = true →
      Visit.Ensures (A.assign ctx op (some e) v) m fun w m' => w = v ∧ m'.state.find? e = some v) :
    A.PreservesLocals ctx where
  write := write
  forget := forget
  reference := (steps _).reference
  assign := assign
  create := (steps _).create
  createArray := (steps _).createArray
  binary := (steps _).binary
  convert := (steps _).convert
  invoke usual call K := (steps K).invoke usual call
  stored := stored

theorem pointsTo_preservesLocals (ctx : Context PointsTo) : pointsTo.PreservesLocals ctx := by
  refine preservesLocals_of_stepsRelate rfl rfl (fun K => pointsTo_stepsRelate Visit.Preserves.frame.toSteady ctx)
    (fun _ e v => ?_) (fun _ e v m h => ?_)
  · cases e with
    | some e =>
      refine (Visit.Preserves.update fun s t ht a ha => ?_).bind fun _ => .pure _
      obtain rfl := Except.ok.inj ht
      exact State.find?_write_of_isMethodLocal _ _ _ ha.1 fun hae => ha.2 (congrArg some hae.symm)
    | none => exact .pure _
  · show Visit.Ensures (do Visit.update (pointsTo.write e v); return v) m _
    rw [Visit.ensures_bind, Visit.ensures_update]
    intro s hs
    obtain rfl := Except.ok.inj hs
    rw [Visit.ensures_pure]
    exact ⟨rfl, find?_write_self _ v _ h⟩

/-- A store in the analysis of literal content writes to the target, if no copies are known. -/
theorem ContentAnalysis.assign_writes {ctx : Context Content} (copies : ctx.copies = none) (op : Operation)
    (e : Option Entity) (v : Content) (m : Machine Content) : Visit.Ensures (assign ctx op e v) m fun w m' => w = v ∧
      m' = { m with state := e.elim m.state fun e => State.write Domain.contents e v m.state } := by
  have alone : ∀ e, copiesAfter ctx op e = [] := fun e => by simp [copiesAfter, copies]
  unfold assign
  cases e with
  | some e =>
    simp only [Visit.ensures_bind, Visit.ensures_state, Visit.ensures_setState, Visit.ensures_pure, alone, List.foldl_nil]
    exact ⟨trivial, rfl⟩
  | none => exact (Visit.ensures_pure _ _ _).2 ⟨rfl, rfl⟩

theorem find?_elim_write (D : Domain V) (v : V) (s : State V) {e : Option Entity} {a : Entity}
    (h : a.isMethodLocal = true ∧ e ≠ some a) : (e.elim s fun e => State.write D e v s).find? a = s.find? a := by
  cases e with
  | none => rfl
  | some e => exact State.find?_write_of_isMethodLocal _ _ _ h.1 fun same => h.2 (congrArg some same.symm)

theorem contents_preservesLocals {ctx : Context Content} (copies : ctx.copies = none) : contents.PreservesLocals ctx := by
  refine preservesLocals_of_stepsRelate rfl rfl (fun K => contents_stepsRelate Visit.Preserves.frame.toSteady ctx)
    (fun op e v m => ?_) (fun op e v m h => ?_)
  · refine (ContentAnalysis.assign_writes copies op e v m).mono fun _ m' after => ?_
    obtain ⟨-, rfl⟩ := after
    exact ⟨fun _ => find?_elim_write _ v _, rfl, rfl⟩
  · refine (ContentAnalysis.assign_writes copies op (some e) v m).mono fun _ m' after => ?_
    obtain ⟨rfl, rfl⟩ := after
    exact ⟨rfl, find?_write_self _ _ _ h⟩

theorem taint_preservesLocals (rules : TaintRules) (ctx : Context Taint) : (taint rules).PreservesLocals ctx := by
  refine preservesLocals_of_stepsRelate rfl rfl
    (fun K => taint_stepsRelate Visit.Preserves.frame.toSteady Visit.Preserves.frame.hits (fun _ _ => ⟨fun _ _ => rfl, rfl, rfl⟩) rules ctx)
    (fun op e v m => ?_) (fun op e v m h => ?_)
  · refine (TaintAnalysis.assign_writes op e v m).mono fun _ m' after => ?_
    obtain ⟨-, _, _, rfl⟩ := after
    exact ⟨fun _ => find?_elim_write _ v _, rfl, rfl⟩
  · refine (TaintAnalysis.assign_writes op (some e) v m).mono fun _ m' after => ?_
    obtain ⟨rfl, _, _, rfl⟩ := after
    exact ⟨rfl, find?_write_self _ _ _ h⟩

end Analysis

end Dataflow
