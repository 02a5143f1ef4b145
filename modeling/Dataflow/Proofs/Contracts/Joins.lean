import Dataflow.Proofs.Contracts.Constructors

/-!
# Joins of states through constructors

What the solver does to states where paths meet and where something is stored, by way of the
constructors of values.

## What is proved

As long as all values in states are valid, the constructors are used rightly and make the states
that the domain makes; and all values in these are valid again (`Upholds.write`, `Upholds.mergeStates`,
`Upholds.widenStates`). So states are joined alike in a whole run (`Upholds.joined`).
-/

namespace Dataflow

variable {V : Type}

/-- What all values are like that a state mentions. -/
def State.Each (P : V → Prop) (s : State V) : Prop := ∀ e v, s.find? e = some v → P v

namespace State

variable {P : V → Prop} {s : State V}

theorem each_empty : (empty : State V).Each P := fun e v h => by
  rw [empty, FinMap.find?_empty] at h
  cases h

theorem Each.insert (h : s.Each P) (e : Entity) {v : V} (hv : P v) : Each P (s.insert e v) :=
  fun _ _ hw => FinMap.find?_insert_ind hw hv h

theorem Each.erase (h : s.Each P) (e : Entity) : Each P (s.erase e) := by
  intro a v hv
  by_cases ha : a = e
  · subst ha
    rw [FinMap.find?_erase_self] at hv
    cases hv
  · exact h a v (FinMap.find?_erase_ne s ha ▸ hv)

theorem Each.filter (h : s.Each P) (p : Entity → V → Bool) : Each P (s.filter p) := by
  intro a v hv
  rw [FinMap.find?_filter] at hv
  exact h a v (Option.filter_eq_some_iff.1 hv).1

theorem each_tabulate {l : FinSet Entity} {f : Entity → V} (h : ∀ e, P (f e)) : Each P (FinMap.tabulate l f) := by
  intro a v hv
  rw [FinMap.find?_tabulate] at hv
  split at hv
  · exact Option.some.inj hv ▸ h a
  · cases hv

end State

namespace Constructors

variable (C : Constructors V)

/-! ### States -/

/-- The value of an entity. -/
def valueOr (s : State V) (e : Entity) : Checked V :=
  match s.find? e with
  | some v => .ok v
  | none => C.missing e

/-- Lets an entity hold a value besides what it may hold. -/
def gain (v : V) (s : State V) (e : Entity) : Checked (State V) := do
  return s.insert e (← C.merge (← C.valueOr s e) v)

/-- Writes a value to an entity. -/
def write (e : Entity) (v : V) (s : State V) : Checked (State V) := do
  let s ← (State.aliases e s).foldlM (C.gain v) s
  if e.hasUnknownOwner then C.gain v s e else return s.insert e v

/-- The state that gives each of some entities its value. -/
def tabulate (l : FinSet Entity) (f : Entity → Checked V) : Checked (State V) :=
  l.toList.foldlM (fun s e => do return s.insert e (← f e)) State.empty

/-- What holds if either state may hold. -/
def mergeStates (a b : State V) : Checked (State V) :=
  tabulate (a.keys.union b.keys) fun e => do C.merge (← C.valueOr a e) (← C.valueOr b e)

/-- What the returns of a body return together. -/
def returnedBy : List V → Checked (Option V)
  | [] => return none
  | v :: l => return some (← l.foldlM C.merge v)

/-- What holds if any of some states may hold. -/
def mergeAll : List (State V) → Checked (Option (State V))
  | [] => return none
  | s :: l => return some (← l.foldlM C.mergeStates s)

/-- What flows into a block. -/
def inflow (g : Graph) (initial : State V) (p : Progress V) (b : Block) : Checked (Option (State V)) :=
  if b.isEntry then return some initial
  else C.mergeAll ((g.predecessors b.id).filterMap p.exits.find?)

variable [DecidableEq V]

/-- Merges, and widens every entity whose value that changes. -/
def widenStates (previous next : State V) : Checked (State V) :=
  tabulate (previous.keys.union next.keys) fun e => do
    let old ← C.valueOr previous e
    let merged ← C.merge old (← C.valueOr next e)
    if old = merged then return merged else C.widen old merged

/-- The state to visit a block in, if there is a new one. -/
def nextEntry (g : Graph) (threshold : Nat) (initial : State V) (p : Progress V) (b : Block) :
    Checked (Option (State V)) := do
  match ← C.inflow g initial p b, p.entries.find? b.id with
  | none, _ => return none
  | some input, none => return some input
  | some input, some previous =>
    if previous = input then return none
    else if threshold ≤ p.visitsOf b.id then
      let widened ← C.widenStates previous input
      return if previous = widened then none else some widened
    else return some input

/-- A solver joins by the constructors. -/
def joining : Joining V where
  next := fun ctx initial p b => C.nextEntry ctx.graph ctx.config.visitsBeforeWidening.toNat initial p b
  returned := C.returnedBy

/-! ### Loops -/

variable {C} {α β : Type}

omit [DecidableEq V] in
/-- A loop in which no step breaks a rule. -/
theorem foldlM_eq {f : β → α → Checked β} {g : β → α → β} {P : β → Prop} {l : List α}
    (step : ∀ b, ∀ a ∈ l, P b → f b a = .ok (g b a) ∧ P (g b a)) {b : β} (hb : P b) :
    l.foldlM f b = .ok (l.foldl g b) ∧ P (l.foldl g b) := by
  induction l generalizing b with
  | nil => exact ⟨rfl, hb⟩
  | cons a l ih =>
    obtain ⟨first, good⟩ := step b a List.mem_cons_self hb
    rw [List.foldlM_cons, first, List.foldl_cons]
    exact ih (fun b c hc => step b c (List.mem_cons_of_mem _ hc)) good

omit [DecidableEq V] in
/-- Inserting entities one after the other gives each its value. -/
theorem find?_foldl_insert (f : Entity → V) (l : List Entity) (s : State V) (a : Entity) :
    (l.foldl (fun s e => s.insert e (f e)) s).find? a = if a ∈ l then some (f a) else s.find? a := by
  induction l generalizing s with
  | nil => simp
  | cons e l ih =>
    rw [List.foldl_cons, ih]
    by_cases hl : a ∈ l
    · simp [hl]
    · by_cases hae : a = e
      · simp [hae]
      · simp [hl, hae, FinMap.find?_insert_ne]

omit [DecidableEq V] in
theorem tabulate_eq {l : FinSet Entity} {f : Entity → Checked V} {g : Entity → V} (h : ∀ e, f e = .ok (g e)) :
    tabulate l f = .ok (FinMap.tabulate l g) := by
  have steps : tabulate l f = .ok (l.toList.foldl (fun s e => s.insert e (g e)) State.empty) := by
    refine (foldlM_eq (P := fun _ => True) (fun s e _ _ => ⟨?_, trivial⟩) trivial).1
    rw [h]
    rfl
  rw [steps]
  refine congrArg Except.ok (FinMap.ext fun a => ?_)
  simp only [find?_foldl_insert, FinMap.find?_tabulate, FinSet.mem_toList, State.empty, FinMap.find?_empty]

/-! ### What is upheld -/

namespace Upholds

variable {D : Domain V} {valid : V → Prop} (U : C.Upholds D valid) {s t : State V}
include U

omit [DecidableEq V] in
theorem valueOr (hs : s.Each valid) (e : Entity) :
    C.valueOr s e = .ok (State.valueOr D s e) ∧ valid (State.valueOr D s e) := by
  unfold Constructors.valueOr State.valueOr
  cases h : s.find? e with
  | some v => exact ⟨rfl, hs e v h⟩
  | none => exact U.missing e

omit [DecidableEq V] in
theorem gain (hs : s.Each valid) {v : V} (hv : valid v) (e : Entity) :
    C.gain v s e = .ok (State.gain D v s e) ∧ (State.gain D v s e).Each valid := by
  obtain ⟨found, hfound⟩ := U.valueOr hs e
  obtain ⟨merged, hmerged⟩ := U.merge _ v hfound hv
  refine ⟨?_, hs.insert e hmerged⟩
  rw [Constructors.gain, found]
  dsimp only [bind, Except.bind]
  rw [merged]
  rfl

omit [DecidableEq V] in
theorem write (hs : s.Each valid) {v : V} (hv : valid v) (e : Entity) :
    C.write e v s = .ok (State.write D e v s) ∧ (State.write D e v s).Each valid := by
  obtain ⟨gained, good⟩ := foldlM_eq (f := C.gain v) (g := State.gain D v) (P := State.Each valid) (l := State.aliases e s)
    (fun s a _ hs => U.gain hs hv a) hs
  rw [Constructors.write, gained]
  dsimp only [bind, Except.bind, State.write, State.gainAll]
  split
  · exact U.gain good hv e
  · exact ⟨rfl, good.insert e hv⟩

omit [DecidableEq V] in
theorem mergeStates (hs : s.Each valid) (ht : t.Each valid) :
    C.mergeStates s t = .ok (State.merge D s t) ∧ (State.merge D s t).Each valid := by
  have merged : ∀ e, _ := fun e => U.merge _ _ (U.valueOr hs e).2 (U.valueOr ht e).2
  refine ⟨tabulate_eq fun e => ?_, State.each_tabulate fun e => (merged e).2⟩
  rw [(U.valueOr hs e).1, (U.valueOr ht e).1]
  exact (merged e).1

theorem widenStates (hs : s.Each valid) (ht : t.Each valid) :
    C.widenStates s t = .ok (State.widen D s t) ∧ (State.widen D s t).Each valid := by
  have merged : ∀ e, _ := fun e => U.merge _ _ (U.valueOr hs e).2 (U.valueOr ht e).2
  have widened : ∀ e, _ := fun e => U.widen _ _ (U.valueOr hs e).2 (merged e).2
  constructor
  · refine tabulate_eq fun e => ?_
    rw [(U.valueOr hs e).1, (U.valueOr ht e).1]
    dsimp only [bind, Except.bind]
    rw [(merged e).1]
    dsimp only
    split
    · rfl
    · exact (widened e).1
  · refine State.each_tabulate fun e => ?_
    dsimp only
    split
    · exact (merged e).2
    · exact (widened e).2

omit [DecidableEq V] in
theorem mergeAll {l : List (State V)} (hl : ∀ s ∈ l, s.Each valid) :
    C.mergeAll l = .ok (State.mergeAll D l) ∧ ∀ s, State.mergeAll D l = some s → s.Each valid := by
  cases l with
  | nil => exact ⟨rfl, fun s hs => by cases hs⟩
  | cons s l =>
    obtain ⟨merged, good⟩ := foldlM_eq (f := C.mergeStates) (g := State.merge D) (P := State.Each valid)
      (fun s t ht hs => U.mergeStates hs (hl t (List.mem_cons_of_mem _ ht))) (hl s List.mem_cons_self)
    refine ⟨?_, fun t ht => Option.some.inj ht ▸ good⟩
    rw [Constructors.mergeAll, merged]
    rfl

omit [DecidableEq V] in
theorem returnedBy {l : List V} (hl : ∀ v ∈ l, valid v) : C.returnedBy l = .ok (Analysis.returnedBy D l) := by
  cases l with
  | nil => rfl
  | cons v l =>
    obtain ⟨merged, -⟩ := foldlM_eq (f := C.merge) (g := D.merge) (P := valid)
      (fun v w hw hv => U.merge v w hv (hl w (List.mem_cons_of_mem _ hw))) (hl v List.mem_cons_self)
    rw [Constructors.returnedBy, merged]
    rfl

omit [DecidableEq V] in
theorem inflow {g : Graph} {initial : State V} {p : Progress V} (hinitial : initial.Each valid)
    (hexits : ∀ b s, p.exits.find? b = some s → State.Each valid s) (b : Block) :
    C.inflow g initial p b = .ok (p.inflow D g initial b) ∧
      ∀ s, p.inflow D g initial b = some s → s.Each valid := by
  unfold Constructors.inflow
  cases hb : b.isEntry with
  | true =>
    rw [Progress.inflow_of_isEntry hb]
    exact ⟨rfl, fun s hs => Option.some.inj hs ▸ hinitial⟩
  | false =>
    rw [Progress.inflow_of_not_isEntry hb]
    refine U.mergeAll fun s hs => ?_
    obtain ⟨i, -, hi⟩ := List.mem_filterMap.1 hs
    exact hexits i s hi

theorem nextEntry {g : Graph} {threshold : Nat} {initial : State V} {p : Progress V} (hinitial : initial.Each valid)
    (hentries : ∀ b s, p.entries.find? b = some s → State.Each valid s)
    (hexits : ∀ b s, p.exits.find? b = some s → State.Each valid s) (b : Block) :
    C.nextEntry g threshold initial p b = .ok (p.nextEntry D g threshold initial b) := by
  obtain ⟨flows, good⟩ := U.inflow (g := g) hinitial hexits b
  unfold Constructors.nextEntry Progress.nextEntry
  rw [flows]
  dsimp only [bind, Except.bind]
  cases hinput : p.inflow D g initial b with
  | none => rfl
  | some input =>
    cases hprevious : p.entries.find? b.id with
    | none => rfl
    | some previous =>
      dsimp only
      rw [(U.widenStates (hentries _ _ hprevious) (good input hinput)).1]
      split
      · rfl
      · split
        · rfl
        · rfl

/-- Where paths meet, an accord on valid values sees to it that states and values are joined alike. -/
theorem joined {G : Accord V} {A : Analysis V} {ctx : Context V} (hdomain : A.domain = D) (hstate : G.state = State.Each valid)
    (hvalue : G.value = valid) : G.Joined A C.joining ctx where
  next := by
    intro initial p b hinitial hp
    have hentries := hp.entries
    have hexits := hp.exits
    rw [hstate] at hinitial hentries hexits
    rw [hdomain]
    exact U.nextEntry hinitial hentries hexits b
  returned := by
    intro l hl
    rw [hvalue] at hl
    rw [hdomain]
    exact U.returnedBy hl

end Upholds

end Constructors

end Dataflow
