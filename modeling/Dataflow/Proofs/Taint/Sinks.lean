import Dataflow.Proofs.Taint.Quiet

/-!
# Hits are those of the solution

Hits are noted while a body is visited, again and again, in states that later visits replace. A call
withdraws what it noted before; so in the end the hits at a call are those of its last visit, which is also the
last visit of its arguments. Calls may be nested in the arguments of others, and hits of callees come in at
the same calls.

## The notions

* `Exposes`: an argument of a call is sensitive and its value is tainted.
* `Exact`: the hits at a call are those that it exposes by the values that are noted.
* `Recorded`: what visits of some trees make of the hits and values.

## What is proved

A call notes what it exposes (`invoke_gains`). Visits of trees with distinct identifiers make all calls in
them exact and leave everything else alone (`visit_recorded`), and so do visits of blocks. Hits of callees do
not interfere, for they are of other methods (`answers_solveWithin`). So the hits of a solution in the body itself
are those that its values expose in blocks that control can reach (`hits_iff_exposes`).
-/

namespace Dataflow.Analysis.TaintAnalysis

variable {rules : TaintRules} {ctx : Context Taint} {usual : Call Taint → Visit Taint Taint}
variable {m m' m'' : Machine Taint}

/-! ### What a call exposes -/

/-- The position that rules know an argument by: its parameter's, or its own. -/
def argumentOrdinal (a : Argument Operation) (position : Nat) : UInt32 :=
  match a.parameter with
  | some parameter => parameter.ordinal
  | none => UInt32.ofNat position

/-- A call passes a tainted value at a sensitive position, by some values of operations. A sanitizer exposes nothing. -/
inductive Exposes (rules : TaintRules) (valueAt : OperationId → Option Taint) : Operation → UInt32 → Prop
  /-- It is the value of an argument. -/
  | argument {i : OperationInfo} {method : Symbol} {receiver : Option Operation} {args : List (Argument Operation)}
      {position : Nat} {a : Argument Operation} (clean : rules.isSanitizer method = false)
      (passed : args[position]? = some a) (sensitive : rules.isSinkArgument method (argumentOrdinal a position) = true)
      (tainted : valueAt a.value.id = some .tainted) :
      Exposes rules valueAt (.invocation i method receiver args) (argumentOrdinal a position)

variable {valueAt valueAt' : OperationId → Option Taint} {op : Operation} {k : UInt32}

theorem Exposes.isCall (h : Exposes rules valueAt op k) : IsCall op := by
  cases h
  exact ⟨_, _, _, _, rfl⟩

/-- Only the values of operands matter. -/
theorem Exposes.congr (h : Exposes rules valueAt op k) (same : ∀ o ∈ op.operands, valueAt' o.id = valueAt o.id) :
    Exposes rules valueAt' op k := by
  cases h with
  | argument clean passed sensitive tainted =>
    refine .argument clean passed sensitive ((same _ ?_).trans tainted)
    exact List.mem_append_right _ (List.mem_map.2 ⟨_, List.mem_of_getElem? passed, rfl⟩)

/-! ### What a call notes -/

/-- An argument as a call sees it is tainted and sensitive. -/
def IsHit (rules : TaintRules) (method : Symbol) (x : Operand Taint × Nat) (k : UInt32) : Prop :=
  x.1.value = .tainted ∧ rules.isSinkArgument method k = true ∧ k = ordinal x.1 x.2

/-- Values are the same, and at a call there are further hits of the method. -/
structure Gains (root : Symbol) (i : OperationId) (new : UInt32 → Prop) (m m' : Machine Taint) : Prop where
  /-- The machine is fine. -/
  fine : Fine root m'
  /-- The values. -/
  values : m'.notes.values = m.notes.values
  /-- The hits. -/
  hits : ∀ j c k, m'.notes.hits.Has j (root, c, k) ↔ (j = i ∧ c = i ∧ new k) ∨ m.notes.hits.Has j (root, c, k)

variable {root : Symbol} {i : OperationId} {new new' : UInt32 → Prop}

theorem Gains.spares (h : Gains root i new m m') (h' : Spares root m' m'') : Gains root i new m m'' :=
  ⟨h'.fine, h'.values.trans h.values, fun j c k => (h'.hits j c k).trans (h.hits j c k)⟩

theorem Spares.gains (h : Spares root m m') (none : ∀ k, ¬new k) : Gains root i new m m' :=
  ⟨h.fine, h.values, fun j c k => (h.hits j c k).trans (or_iff_right fun hk => none k hk.2.2).symm⟩

theorem Gains.trans (h : Gains root i new m m') (h' : Gains root i new' m' m'') :
    Gains root i (fun k => new k ∨ new' k) m m'' := by
  refine ⟨h'.fine, h'.values.trans h.values, fun j c k => ?_⟩
  rw [h'.hits, h.hits, ← or_assoc, and_or_left, and_or_left, or_comm (a := j = i ∧ c = i ∧ new' k)]

theorem Gains.congr (h : Gains root i new m m') (same : ∀ k, new k ↔ new' k) : Gains root i new' m m' :=
  ⟨h.fine, h.values, fun j c k => by rw [h.hits, same k]⟩

/-- An argument is noted if it is a hit. -/
theorem recordHit_gains (call : Call Taint) (x : Operand Taint × Nat) (hm : Fine ctx.owner m) :
    Visit.Ensures (recordHit rules ctx call x) m fun _ m' =>
      Gains ctx.owner call.operation.id (IsHit rules call.method x) m m' := by
  obtain ⟨a, position⟩ := x
  unfold recordHit
  dsimp only
  split
  · rename_i hcond
    simp only [Bool.and_eq_true, decide_eq_true_eq] at hcond
    rw [Visit.ensures_bind, Visit.ensures_originsOf, Visit.ensures_modifyHits]
    refine ⟨⟨hm.keyed.record _ _, hm.files⟩, rfl, fun j c k => ?_⟩
    rw [HitLog.has_record hm.keyed]
    refine or_congr_left (and_congr_right fun _ => ?_)
    simp only [SinkHit.key, access, Prod.mk.injEq, true_and, IsHit]
    refine and_congr_right fun _ => ⟨?_, fun h => h.2.2⟩
    rintro rfl
    exact ⟨hcond.1, hcond.2, rfl⟩
  · rename_i hcond
    simp only [Bool.and_eq_true, decide_eq_true_eq] at hcond
    rw [Visit.ensures_pure]
    refine Spares.gains ⟨hm, rfl, fun _ _ _ => .rfl⟩ fun k hk => hcond ⟨hk.1, ?_⟩
    rw [← hk.2.2]
    exact hk.2.1

/-- All arguments that are hits are noted. -/
theorem recordHits_gains (call : Call Taint) (l : List (Operand Taint × Nat)) (hm : Fine ctx.owner m) :
    Visit.Ensures (l.forM (recordHit rules ctx call)) m fun _ m' =>
      Gains ctx.owner call.operation.id (fun k => ∃ x ∈ l, IsHit rules call.method x k) m m' := by
  induction l generalizing m with
  | nil =>
    rw [Visit.ensures_forM_nil]
    exact Spares.gains ⟨hm, rfl, fun _ _ _ => .rfl⟩ fun k hk => by
      obtain ⟨x, hx, -⟩ := hk
      cases hx
  | cons x l ih =>
    rw [Visit.ensures_forM_cons]
    refine (recordHit_gains call x hm).mono fun _ m₁ first => (ih first.fine).mono fun _ m₂ rest => ?_
    exact (first.trans rest).congr fun k => by simp only [List.mem_cons, exists_eq_or_imp]

/-- A method whose arguments are not sensitive is no sink. -/
theorem isSink_of_isSinkArgument {method : Symbol} (h : rules.isSinkArgument method k = true) : rules.isSink method = true := by
  unfold TaintRules.isSinkArgument at h
  unfold TaintRules.isSink
  cases hname : TaintRules.nameOf method with
  | none => simp [hname] at h
  | some name =>
    simp only [hname, Option.bind_some] at h
    cases hfind : rules.sinks.find? name with
    | none => simp [hfind] at h
    | some positions => simp [FinMap.contains, hfind]

/-- A call notes the hits among its arguments, unless it is a sanitizer. -/
theorem invoke_gains (call : Call Taint) (husual : Quiet ctx.owner (usual call) fun _ => True) (hm : Fine ctx.owner m) :
    Visit.Ensures (invoke rules ctx usual call) m fun _ m' =>
      Gains ctx.owner call.operation.id (fun k => rules.isSanitizer call.method = false ∧
        ∃ x ∈ call.arguments.zip (List.range call.arguments.length), IsHit rules call.method x k) m m' := by
  unfold invoke
  dsimp only
  split
  · rename_i sanitizer
    refine (((quiet_setOrigins _ _).bind fun _ _ => quiet_pure (P := fun _ => True) trivial) m hm).mono fun _ m' h => ?_
    exact h.1.gains fun k hk => by
      rw [sanitizer] at hk
      cases hk.1
  · rename_i clean
    rw [Bool.not_eq_true] at clean
    split
    · rw [Visit.ensures_bind]
      refine (recordHits_gains call _ hm).mono fun _ m₁ noted => ?_
      refine (quiet_result husual m₁ noted.fine).mono fun _ m₂ h => ?_
      exact (noted.spares h.1).congr fun k => (and_iff_right clean).symm
    · rename_i other
      refine (quiet_result husual m hm).mono fun _ m' h => h.1.gains fun k hk => ?_
      obtain ⟨-, x, -, -, sensitive, -⟩ := hk
      exact other (isSink_of_isSinkArgument sensitive)

/-! ### Arguments as a call sees them -/

/-- The values that were seen are those that are noted. -/
def SeenIn (n : Notes Taint) (ops : List Operation) (seen : List (Seen Taint)) : Prop :=
  seen.map (fun s => some s.value) = ops.map fun o => n.values.find? o.id

section Arguments

variable {A : Analysis Taint} {n : Notes Taint} {info : OperationInfo} {method : Symbol} {receiver : Option Operation}
variable {args : List (Argument Operation)} {seen : List (Seen Taint)} {position : Nat}

variable (ctx op A) in
/-- A call sees an argument with the value that is noted for it. -/
theorem SeenIn.argument (h : SeenIn n (Operation.invocation info method receiver args).operands seen)
    {a : Argument Operation} (ha : args[position]? = some a) :
    ∃ s, (A.callOf ctx op method receiver args seen).arguments[position]? = some (A.argumentOf ctx a s) ∧
      n.values.find? a.value.id = some s.value := by
  have operand : (Operation.invocation info method receiver args).operands[receiver.toList.length + position]? =
      some a.value := by
    rw [Operation.operands, List.getElem?_append_right (Nat.le_add_right _ _), Nat.add_sub_cancel_left, List.getElem?_map, ha]
    rfl
  have noted := congrArg (·[receiver.toList.length + position]?) h
  simp only [List.getElem?_map, operand, Option.map_some] at noted
  obtain ⟨s, hs, hvalue⟩ := Option.map_eq_some_iff.1 noted
  refine ⟨s, ?_, hvalue.symm⟩
  simp only [callOf, List.getElem?_zipWith, List.getElem?_drop, ha, hs]

/-- There are no other arguments. -/
theorem exists_of_getElem?_callOf {x : Operand Taint}
    (h : (A.callOf ctx op method receiver args seen).arguments[position]? = some x) : ∃ a, args[position]? = some a := by
  simp only [callOf, List.getElem?_zipWith_eq_some] at h
  obtain ⟨a, -, ha, -⟩ := h
  exact ⟨a, ha⟩

/-- The hits that a call sees among its arguments are what it exposes by the values that are noted. -/
theorem SeenIn.exposes_iff (h : SeenIn n (Operation.invocation info method receiver args).operands seen) (k : UInt32) :
    (rules.isSanitizer method = false ∧
      ∃ x ∈ (A.callOf ctx op method receiver args seen).arguments.zip
        (List.range (A.callOf ctx op method receiver args seen).arguments.length), IsHit rules method x k) ↔
      Exposes rules n.values.find? (.invocation info method receiver args) k := by
  rw [List.range_eq_range', ← List.zipIdx_eq_zip_range']
  constructor
  · rintro ⟨clean, ⟨x, position⟩, hmem, tainted, sensitive, rfl⟩
    have hx := List.mk_mem_zipIdx_iff_getElem?.1 hmem
    obtain ⟨a, ha⟩ := exists_of_getElem?_callOf hx
    obtain ⟨s, hs, noted⟩ := h.argument ctx op A ha
    obtain rfl := Option.some.inj (hx.symm.trans hs)
    exact .argument clean ha sensitive (noted.trans (congrArg some tainted))
  · intro hexposes
    cases hexposes with
    | @argument _ _ _ _ position a clean passed sensitive tainted =>
      obtain ⟨s, hs, noted⟩ := h.argument ctx op A passed
      exact ⟨clean, (A.argumentOf ctx a s, position), List.mk_mem_zipIdx_iff_getElem?.2 hs,
        Option.some.inj (noted.symm.trans tainted), sensitive, rfl⟩

end Arguments

/-! ### Trees -/

/-- The hits of a method at an operation are what it exposes. -/
def Exact (rules : TaintRules) (root : Symbol) (n : Notes Taint) (op : Operation) : Prop :=
  ∀ c k, n.hits.Has op.id (root, c, k) ↔ c = op.id ∧ Exposes rules n.values.find? op k

/-- Only the values of operands and the hits at the operation matter. -/
theorem Exact.congr {n n' : Notes Taint} (h : Exact rules root n op)
    (values : ∀ o ∈ op.operands, n'.values.find? o.id = n.values.find? o.id)
    (hits : ∀ c k, n'.hits.Has op.id (root, c, k) ↔ n.hits.Has op.id (root, c, k)) : Exact rules root n' op := by
  intro c k
  rw [hits, h c k]
  exact and_congr_right fun _ =>
    ⟨fun hk => hk.congr values, fun hk => hk.congr fun o ho => (values o ho).symm⟩

/-- Some trees were visited: their calls are exact, and other operations were left alone. -/
structure Recorded (rules : TaintRules) (root : Symbol) (ops : List Operation) (m m' : Machine Taint) : Prop where
  /-- The machine is fine. -/
  fine : Fine root m'
  /-- Other values are the same. -/
  values : ∀ i, i ∉ Operation.idsIn ops → m'.notes.values.find? i = m.notes.values.find? i
  /-- Hits at other operations are the same. -/
  hits : ∀ i, (∀ o ∈ Operation.subtrees ops, IsCall o → o.id ≠ i) →
    ∀ c k, m'.notes.hits.Has i (root, c, k) ↔ m.notes.hits.Has i (root, c, k)
  /-- Calls are exact. -/
  exact : ∀ o ∈ Operation.subtrees ops, IsCall o → Exact rules root m'.notes o

variable {ops : List Operation}

theorem Recorded.nil (hm : Fine root m) : Recorded rules root [] m m :=
  ⟨hm, fun _ _ => rfl, fun _ _ _ _ => .rfl, fun _ ho => by cases ho⟩

theorem Recorded.spares (h : Recorded rules root ops m m') (h' : Spares root m' m'') : Recorded rules root ops m m'' where
  fine := h'.fine
  values := fun i hi => by rw [h'.values, h.values i hi]
  hits := fun i hi c k => (h'.hits i c k).trans (h.hits i hi c k)
  exact := fun o ho hcall => (h.exact o ho hcall).congr (fun _ _ => by rw [h'.values]) fun c k => h'.hits _ c k

theorem Spares.recorded (h : Spares root m m') (h' : Recorded rules root ops m' m'') : Recorded rules root ops m m'' where
  fine := h'.fine
  values := fun i hi => by rw [h'.values i hi, h.values]
  hits := fun i hi c k => (h'.hits i hi c k).trans (h.hits i c k)
  exact := h'.exact

/-- Exactness of a call is not disturbed by visits of trees with other identifiers. -/
theorem Recorded.exact_of_not_mem (h : Recorded rules root ops m m') {o : Operation} (exact : Exact rules root m.notes o)
    (other : ∀ a ∈ o.subtree, a.id ∉ Operation.idsIn ops) : Exact rules root m'.notes o := by
  refine exact.congr (fun a ha => h.values a.id (other a ?_)) (h.hits o.id fun a ha _ hid => other o o.mem_subtree_self ?_)
  · exact Operation.mem_subtree_of_mem_operands ha a.mem_subtree_self
  · exact hid ▸ Operation.id_mem_idsIn ha

/-- Trees are visited one after the other. -/
theorem Recorded.cons (nodup : (Operation.idsIn (op :: ops)).Nodup) (first : Recorded rules root [op] m m')
    (rest : Recorded rules root ops m' m'') : Recorded rules root (op :: ops) m m'' := by
  obtain ⟨-, -, disjoint⟩ := Operation.nodup_idsIn_cons.1 nodup
  refine ⟨rest.fine, fun i hi => ?_, fun i hi c k => ?_, fun o ho hcall => ?_⟩
  · rw [Operation.not_mem_idsIn_cons] at hi
    rw [rest.values i hi.2, first.values i (by simpa using hi.1)]
  · rw [rest.hits i (fun o ho => hi o (List.mem_append_right _ ho)) c k]
    exact first.hits i (fun o ho => hi o (List.mem_append_left _ (by simpa using ho))) c k
  · rcases List.mem_append.1 ho with ho | ho
    · exact rest.exact_of_not_mem (first.exact o (by simpa using ho) hcall) fun a ha =>
        disjoint a.id (List.mem_map_of_mem (Operation.subtree_trans ho ha))
    · exact rest.exact o ho hcall

/-- Visits of operands see the values that are noted. -/
theorem recorded_of_trail {T : Operation → Machine Taint → Taint → Machine Taint → Prop}
    (visited : ∀ op m v m', T op m v m' → Fine root m → (op.subtree.map (·.id)).Nodup →
      Recorded rules root [op] m m' ∧ m'.notes.values.find? op.id = some v)
    {seen : List (Seen Taint)} (trail : Trail T ops m seen m') (hm : Fine root m) (nodup : (Operation.idsIn ops).Nodup) :
    Recorded rules root ops m m' ∧ SeenIn m'.notes ops seen := by
  induction trail with
  | nil => exact ⟨.nil hm, rfl⟩
  | @cons op ops m m₁ m₂ v seen first others ih =>
    obtain ⟨nodupFirst, nodupRest, disjoint⟩ := Operation.nodup_idsIn_cons.1 nodup
    obtain ⟨recorded, value⟩ := visited op m v m₁ first hm nodupFirst
    obtain ⟨rest, seenRest⟩ := ih recorded.fine nodupRest
    refine ⟨.cons nodup recorded rest, ?_⟩
    rw [SeenIn, List.map_cons, List.map_cons, rest.values _ (disjoint _ op.id_mem_subtree), value]
    exact congrArg _ seenRest

/-- After its operands an operation takes its own step, and its value is noted. -/
theorem Recorded.step (nodup : (op.subtree.map (·.id)).Nodup) (operands : Recorded rules root op.operands m m')
    (fine : Fine root m'') (values : m''.notes.values = m'.notes.values)
    (others : ∀ i, (IsCall op → op.id ≠ i) → ∀ c k, m''.notes.hits.Has i (root, c, k) ↔ m'.notes.hits.Has i (root, c, k))
    (exact : IsCall op → Exact rules root m''.notes op) (v : Taint) :
    Recorded rules root [op] m
      { m'' with notes := { m''.notes with values := m''.notes.values.insert op.id v } } := by
  have own := Operation.id_not_mem_operands nodup
  have tree : ∀ o, o ∈ Operation.subtrees [op] ↔ o ∈ Operation.subtrees op.operands ∨ o = op := fun o => by
    simp [Operation.subtree_eq op]
  -- The operation's own value is no operand's.
  have inserted : ∀ i ∈ Operation.idsIn op.operands,
      (m''.notes.values.insert op.id v).find? i = m''.notes.values.find? i := fun i hi =>
    FinMap.find?_insert_ne _ _ fun he => own (he ▸ hi)
  refine ⟨⟨fine.keyed, fine.files⟩, fun i hi => ?_, fun i hi c k => ?_, fun o ho hcall => ?_⟩
  · rw [Operation.idsIn_singleton, Operation.map_id_subtree, List.mem_append, not_or] at hi
    have hne : i ≠ op.id := fun he => hi.2 (List.mem_singleton.2 he)
    show (m''.notes.values.insert op.id v).find? i = _
    rw [FinMap.find?_insert_ne _ _ hne, values, operands.values i hi.1]
  · refine (others i (hi op ((tree op).2 (.inr rfl))) c k).trans ?_
    exact operands.hits i (fun o ho => hi o ((tree o).2 (.inl ho))) c k
  · rcases (tree o).1 ho with ho | rfl
    · have inTree : ∀ a ∈ o.operands, a.id ∈ Operation.idsIn op.operands := fun a ha =>
        Operation.id_mem_idsIn (Operation.mem_subtrees_of_mem_operands ho ha)
      refine (operands.exact o ho hcall).congr (fun a ha => ?_) (others o.id fun _ he => own (he ▸ Operation.id_mem_idsIn ho))
      rw [inserted a.id (inTree a ha), values]
    · refine (exact hcall).congr (fun a ha => inserted a.id ?_) fun _ _ => .rfl
      exact Operation.id_mem_idsIn (Operation.subtree_subset_of_mem ha a a.mem_subtree_self)

/-- Visits of trees make their calls exact: by induction over operands. -/
theorem visit_recorded (husual : ∀ call, Quiet ctx.owner (usual call) fun _ => True) (hm : Fine ctx.owner m)
    (nodup : (op.subtree.map (·.id)).Nodup) :
    Visit.Ensures ((taint rules).visit ctx usual op) m fun _ m' => Recorded rules ctx.owner [op] m m' := by
  refine (visit_ensures (T := fun op m v m' => Fine ctx.owner m → (op.subtree.map (·.id)).Nodup →
    Recorded rules ctx.owner [op] m m' ∧ m'.notes.values.find? op.id = some v) ?_ op m).mono
      fun _ _ h => (h hm nodup).1
  clear hm nodup
  intro op m seen m₁ trail v m₂ run hm nodup
  refine ⟨?_, FinMap.find?_insert_self _ _ _⟩
  obtain ⟨operands, seenIn⟩ := recorded_of_trail (fun _ _ _ _ h => h) trail hm (Operation.nodup_operands nodup)
  by_cases hop : IsCall op
  · obtain ⟨i, method, receiver, args, rfl⟩ := hop
    let op := Operation.invocation i method receiver args
    have spec : Visit.Ensures ((taint rules).own ctx usual op seen) m₁ fun _ m₂ => Fine ctx.owner m₂ ∧
        m₂.notes.values = m₁.notes.values ∧ ∀ j c k, m₂.notes.hits.Has j (ctx.owner, c, k) ↔
          (j = op.id ∧ c = op.id ∧ Exposes rules m₁.notes.values.find? op k) ∨
            (j ≠ op.id ∧ m₁.notes.hits.Has j (ctx.owner, c, k)) := by
      rw [own, Visit.ensures_bind, Visit.ensures_modifyHits]
      have withdrawn : Fine ctx.owner { m₁ with notes := { m₁.notes with hits := m₁.notes.hits.withdraw op.id } } :=
        ⟨operands.fine.keyed.withdraw _, operands.fine.files⟩
      refine (invoke_gains _ (husual _) withdrawn).mono fun _ m₂ h => ?_
      refine ⟨h.fine, h.values, fun j c k => (h.hits j c k).trans ?_⟩
      rw [HitLog.has_withdraw]
      exact or_congr_left (and_congr_right fun _ => and_congr_right fun _ => seenIn.exposes_iff k)
    obtain ⟨fine, values, hits⟩ := spec v m₂ run
    refine operands.step nodup fine values (fun j hj c k => ?_) (fun _ c k => ?_) v
    · have hne := (hj ⟨i, method, receiver, args, rfl⟩).symm
      rw [hits]
      exact ⟨fun h => h.elim (fun h => absurd h.1 hne) And.right, fun h => .inr ⟨hne, h⟩⟩
    · rw [hits, values]
      exact ⟨fun h => h.elim And.right fun h => absurd rfl h.1, fun h => .inl ⟨rfl, h⟩⟩
  · have spares := (quiet_own hop seen m₁ operands.fine v m₂ run).1
    exact operands.step nodup spares.fine spares.values (fun j _ c k => spares.hits j c k) (fun h => absurd h hop) v

/-! ### Blocks and solutions -/

theorem statements_recorded (husual : ∀ call, Quiet ctx.owner (usual call) fun _ => True) (hm : Fine ctx.owner m)
    (nodup : (Operation.idsIn ops).Nodup) :
    Visit.Ensures (ops.forM ((taint rules).statement ctx usual)) m fun _ m' => Recorded rules ctx.owner ops m m' := by
  induction ops generalizing m with
  | nil =>
    rw [Visit.ensures_forM_nil]
    exact .nil hm
  | cons op ops ih =>
    obtain ⟨nodupFirst, nodupRest, -⟩ := Operation.nodup_idsIn_cons.1 nodup
    simp only [Visit.ensures_forM_cons, statement, Visit.ensures_bind, Visit.ensures_pure]
    refine (quiet_recordBefore op.id m hm).mono fun _ m₁ before => ?_
    refine (visit_recorded husual before.1.fine nodupFirst).mono fun _ m₂ first => ?_
    refine (ih first.fine nodupRest).mono fun _ m₃ rest => ?_
    exact .cons nodup (before.1.recorded first) rest

theorem runBlock_recorded (husual : ∀ call, Quiet ctx.owner (usual call) fun _ => True) {b : Block} (s : State Taint)
    (hm : Fine ctx.owner m) (nodup : (Operation.idsIn b.allOperations).Nodup) :
    Visit.Ensures ((taint rules).runBlock ctx usual b s) m fun _ m' => Recorded rules ctx.owner b.allOperations m m' := by
  unfold runBlock
  rw [Visit.ensures_bind]
  refine (quiet_setState s m hm).mono fun _ m₁ start => ?_
  rw [Visit.ensures_bind]
  refine (statements_recorded husual start.1.fine nodup).mono fun _ m₂ operations => ?_
  rw [Visit.ensures_bind]
  refine (quiet_leaveScope _ b.leavingScope m₂ operations.fine).mono fun _ m₃ scopes => ?_
  rw [Visit.ensures_state]
  exact start.1.recorded (operations.spares scopes.1)

/-- The calls of visited blocks are exact, and there are no hits at other operations. -/
def sinks (rules : TaintRules) (ctx : Context Taint) : Invariant Taint where
  state := fun _ => True
  machine := fun m => Fine ctx.owner m ∧ ∀ i c k, m.notes.hits.Has i (ctx.owner, c, k) →
    ∃ b ∈ sweepOrder ctx.graph, ∃ o ∈ Operation.subtrees b.allOperations, IsCall o ∧ o.id = i
  block := fun b _ _ n => ∀ o ∈ Operation.subtrees b.allOperations, IsCall o → Exact rules ctx.owner n o

theorem sinks_kept (distinct : ctx.graph.DistinctIds) (husual : ∀ call, Quiet ctx.owner (usual call) fun _ => True)
    (initial : State Taint) : (sinks rules ctx).Kept (taint rules) ctx usual initial where
  initial := trivial
  merge := fun _ _ _ _ => trivial
  widen := fun _ _ _ _ => trivial
  run := by
    intro b hb m s hm _
    obtain ⟨fine, places⟩ := hm
    refine (runBlock_recorded husual s fine (distinct.block (mem_blocks_of_mem_sweepOrder hb))).mono fun out m' recorded => ?_
    refine ⟨⟨recorded.fine, fun i c k hk => ?_⟩, trivial, recorded.exact, fun d hd hne t u exact o ho hcall => ?_⟩
    · by_cases here : ∃ o ∈ Operation.subtrees b.allOperations, IsCall o ∧ o.id = i
      · exact ⟨b, hb, here⟩
      · exact places i c k ((recorded.hits i (fun o ho hcall hid => here ⟨o, ho, hcall, hid⟩) c k).1 hk)
    · refine recorded.exact_of_not_mem (exact o ho hcall) fun a ha => ?_
      exact distinct.not_mem_of_ne (mem_blocks_of_mem_sweepOrder hd) (mem_blocks_of_mem_sweepOrder hb)
        (fun he => hne (congrArg Block.id he)) (Operation.id_mem_idsIn (Operation.subtrees_trans ho ha))

/-- Calls are quiet in a body whose callees are found under their names. -/
theorem quiet_usualIn (owned : ∀ method g, ctx.bodies method = some g → g.owner = method) (call : Call Taint) :
    Quiet ctx.owner ((taint rules).usualIn ctx call) fun _ => True := by
  unfold usualIn
  cases ctx.config.calls.maxCallChain.toNat - ctx.callStack.length with
  | zero => exact quiet_handleCall fun _ _ h => by cases h
  | succ depth =>
    refine quiet_handleCall fun solve callee hsolve away hbody site entry => ?_
    obtain rfl := Option.some.inj hsolve
    obtain ⟨below, other⟩ := underWay_callee List.mem_cons_self away (owned _ _ hbody) site entry
    exact answers_solveWithin depth _ owned below other

/-- The hits in the analysed body are those that its values expose in blocks that control can reach. -/
theorem hits_iff_exposes {cancelled : Bool} {sol : Solution Taint} {ledger : Ledger Taint} (valid : ctx.graph.Valid)
    (distinct : ctx.graph.DistinctIds) (owned : ∀ method g, ctx.bodies method = some g → g.owner = method)
    (h : ((taint rules).solve ctx).run (Ledger.start cancelled) = (.ok sol, ledger)) (c : OperationId) (k : UInt32) :
    (∃ hit ∈ sol.hits.hits, hit.location.accessingMethod = ctx.owner ∧ hit.operation = c ∧ hit.argument = k) ↔
      ∃ i b op, ctx.graph.Reachable i ∧ ctx.graph.block? i = some b ∧ op ∈ Operation.subtrees b.allOperations ∧
        op.id = c ∧ Exposes rules sol.valueAt op k := by
  rw [solve_eq_solveBody] at h
  have files : (Ledger.start cancelled).Files (Foreign ctx.owner) :=
    ⟨fun _ he => (List.not_mem_nil he).elim, fun _ _ hf => by simp [Ledger.start] at hf⟩
  obtain ⟨initial, p, m, -, rfl, hholds, hsettled⟩ := solveBody_holds (K := sinks rules ctx) h valid
    ⟨⟨HitLog.keyed_empty, files⟩, fun _ _ _ hk => absurd hk HitLog.not_has_empty⟩
    fun initial _ => sinks_kept distinct (quiet_usualIn owned) initial
  obtain ⟨fine, places⟩ := hholds.machine
  -- Calls of swept blocks are exact, for swept blocks were visited.
  have exact : ∀ i b, ctx.graph.Reachable i → ctx.graph.block? i = some b →
      ∀ o ∈ Operation.subtrees b.allOperations, IsCall o → Exact rules ctx.owner m.notes o := by
    intro i b hi hb
    obtain ⟨_, _, -, hblock, -⟩ := exists_visit_of_reachable valid hholds hsettled (P := fun _ => True)
      (fun _ _ _ _ => trivial) hi hb fun _ _ => trivial
    exact hblock
  have known : (∃ hit ∈ m.notes.hits.hits,
      hit.location.accessingMethod = ctx.owner ∧ hit.operation = c ∧ hit.argument = k) ↔
      ∃ i, m.notes.hits.Has i (ctx.owner, c, k) := by
    rw [← HitLog.exists_mem_hits_iff fine.keyed]
    simp only [SinkHit.key, Prod.mk.injEq]
  refine known.trans ⟨?_, ?_⟩
  · rintro ⟨i, hk⟩
    obtain ⟨b, hb, o, ho, hcall, rfl⟩ := places i c k hk
    have hblock := valid.block?_id (mem_blocks_of_mem_sweepOrder hb)
    have hj := reachable_of_mem_sweepOrder valid hb
    obtain ⟨rfl, exposes⟩ := (exact b.id b hj hblock o ho hcall c k).1 hk
    exact ⟨b.id, b, o, hj, hblock, ho, rfl, exposes⟩
  · rintro ⟨i, b, op, hi, hb, hop, rfl, exposes⟩
    exact ⟨op.id, (exact i b hi hb op hop exposes.isCall op.id k).2 ⟨rfl, exposes⟩⟩

end Dataflow.Analysis.TaintAnalysis

/-! ### Queries that are made of input -/

namespace Dataflow.Analysis.TaintAnalysis

namespace Queries

/-- What an operation carries. -/
def info (number : UInt32) : OperationInfo := ⟨⟨number⟩, none, ⟨0, 0⟩⟩

/-- Brings input in. -/
def read : Symbol := Symbol.method "Input" "read" none

/-- Cleans what it is given. -/
def escape : Symbol := Symbol.method "Encoder" "escape" none

/-- Must not be given input. -/
def execute : Symbol := Symbol.method "Db" "execute" none

/-- A method that passes its parameter on. -/
def lookUp : Symbol := Symbol.method "C" "lookUp" none

/-- The parameter. -/
def query : Symbol := ⟨"query", .parameter, none, none, .value, 0⟩

/-- A method that calls it. -/
def main : Symbol := Symbol.method "C" "main" none

/-- A call of a method with one argument. -/
def call (number : UInt32) (method : Symbol) (argument : Operation) : Operation :=
  .invocation (info number) method none [⟨none, argument, .value⟩]

/-- A call that brings input in. -/
def input (number : UInt32) : Operation := .invocation (info number) read none []

/-- One input is executed, one is cleaned first, and one is passed to another method. -/
def graph : Graph where
  owner := main
  parameters := []
  blocks :=
    [⟨⟨0⟩, .entry, [call 1 execute (input 0), call 4 execute (call 3 escape (input 2)), call 6 lookUp (input 5)], none,
        [⟨⟨1⟩, .regular⟩], []⟩,
      ⟨⟨1⟩, .exit, [], none, [], []⟩]

/-- The other method executes its parameter. -/
def callee : Graph where
  owner := lookUp
  parameters := [query]
  blocks :=
    [⟨⟨0⟩, .entry, [call 1 execute (.parameterRef (info 0) query)], none, [⟨⟨1⟩, .regular⟩], []⟩,
      ⟨⟨1⟩, .exit, [], none, [], []⟩]

/-- The bodies. -/
def bodies (m : Symbol) : Option Graph := if m = lookUp then some callee else none

theorem owned {m : Symbol} {g : Graph} (h : bodies m = some g) : g.owner = m := by
  unfold bodies at h
  split at h
  · obtain rfl := Option.some.inj h
    exact Eq.symm ‹_›
  · cases h

/-- Input must not be executed unless it was cleaned. -/
def rules : TaintRules :=
  ⟨FinSet.singleton ("Input", "read"), FinSet.empty, FinSet.singleton ("Encoder", "escape"),
    FinMap.empty.insert ("Db", "execute") (FinSet.singleton 0)⟩

/-- Calls are followed in context. -/
def context : Context Taint := Context.start graph { Config.usual with calls := CallConfig.usual .inContext } bodies

end Queries

open Queries in
/-- The input that is executed at once is the hit in the body itself; the other hit is in the callee. -/
theorem hits_iff_exposes_queries :
    ∃ sol ledger, ((taint rules).solve context).run (Ledger.start false) = (.ok sol, ledger) ∧
      sol.hits.hits.map SinkHit.key = [(lookUp, ⟨1⟩, 0), (main, ⟨1⟩, 0)] ∧
      ∀ c k, (∃ i b op, graph.Reachable i ∧ graph.block? i = some b ∧ op ∈ Operation.subtrees b.allOperations ∧
        op.id = c ∧ Exposes rules sol.valueAt op k) ↔ c = ⟨1⟩ ∧ k = 0 := by
  have keys : (((taint rules).solve context).run (Ledger.start false)).1.toOption.bind
      (fun sol => (some sol.hits.hits).map fun hits => hits.map SinkHit.key) = some [(lookUp, ⟨1⟩, 0), (main, ⟨1⟩, 0)] := by
    decide +kernel
  obtain ⟨sol, ledger, hits, h, hhits, hkeys⟩ := exists_of_inspected keys
  obtain rfl := Option.some.inj hhits
  refine ⟨sol, ledger, h, hkeys, fun c k => ?_⟩
  have exposes := hits_iff_exposes (by decide +kernel) (by decide +kernel) (fun _ _ h => owned h) h c k
  have known : (∃ hit ∈ sol.hits.hits, hit.location.accessingMethod = main ∧ hit.operation = c ∧ hit.argument = k) ↔
      (main, c, k) ∈ sol.hits.hits.map SinkHit.key := by
    simp only [List.mem_map, SinkHit.key, Prod.mk.injEq]
  have other : main ≠ lookUp := by decide
  refine exposes.symm.trans (known.trans ?_)
  simp [hkeys, other]

end Dataflow.Analysis.TaintAnalysis
