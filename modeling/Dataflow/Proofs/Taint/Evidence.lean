import Dataflow.Proofs.Taint.Followed
import Dataflow.Proofs.Visit.Names

/-!
# Evidence for hits

A hit says where the untrusted data comes from that a sensitive argument holds. Such a place is not always known: what a
caller passes, what a callee returns or leaves in storage, and what is stored through an alias is untrusted, but its origins
stay behind.

## The notions

* `Faithful`: a turn traces its data, and what the call is answered with has evidence.
* `Tracks`: a visit whose turns are faithful is accounted for.
* `Progressed`: how far a run has come, with origins of all untrusted data in the states of blocks.
* `Traced`: in a run over a body untrusted data goes nowhere without its origins.

## What is proved

Visits of trees, blocks and sweeps keep a machine sourced as long as their turns are faithful. So if all runs that a run
causes are traced, all of its hits have sources (`hits_evident`). Data that a caller passes to a sink in a callee is not
traced, and the hit has none (`not_hits_evident`).
-/

namespace Dataflow

namespace Analysis

namespace TaintAnalysis

variable {rules : TaintRules} {ctx : Context Taint} {m m' m'' : Machine Taint} {op : Operation} {ops : List Operation}
variable {v : Taint} {seen : List (Seen Taint)} {c d : List (Visit.Turn Taint)}

/-! ### Trees -/

/-- In a turn untrusted data goes nowhere without its origins, and a call is answered by solutions whose hits have
sources. -/
def Faithful (rules : TaintRules) (ctx : Context Taint) (t : Visit.Turn Taint) : Prop :=
  Traces rules ctx t ∧ (taint rules).Answers (leavesToUsual rules) Solution.Evident ctx t

/-- A visit with these turns is accounted for if they are faithful and their operations are different ones. -/
def Tracks (rules : TaintRules) (ctx : Context Taint) (op : Operation) (m : Machine Taint) (v : Taint) (m' : Machine Taint)
    (c : List (Visit.Turn Taint)) : Prop :=
  (op.subtree.map (·.id)).Nodup → (∀ t ∈ c, Faithful rules ctx t) → Sourced m →
    Accounted (op.subtree.map (·.id)) op m v m'

/-- Operands that are visited one after the other keep a machine sourced, and origins are noted for their values. -/
structure AllAccounted (ops : List Operation) (m : Machine Taint) (seen : List (Seen Taint)) (m' : Machine Taint) : Prop where
  /-- The machine is sourced. -/
  sourced : Sourced m'
  /-- Origins are kept. -/
  remembers : m.notes.Remembers m'.notes
  /-- The values have origins. -/
  values : List.Forall₂ (fun o s => s.value = .tainted → isSilent o = true ∨ m'.notes.originsAt o.id ≠ FinSet.empty) ops seen
  /-- Those of other operations are the same. -/
  others : ∀ i, i ∉ Operation.idsIn ops → m'.notes.originsAt i = m.notes.originsAt i

theorem operands_accounted (trail : TrailAlong (Tracks rules ctx) ops m seen m' c) (nodup : (Operation.idsIn ops).Nodup)
    (faithful : ∀ t ∈ c, Faithful rules ctx t) (sourced : Sourced m) : AllAccounted ops m seen m' := by
  induction trail with
  | nil m => exact ⟨sourced, fun _ h => h, .nil, fun _ _ => rfl⟩
  | @cons op ops m m₁ m₂ v seen c d first _ ih =>
    obtain ⟨nodupFirst, nodupRest, disjoint⟩ := Operation.nodup_idsIn_cons.1 nodup
    have visited := first nodupFirst (fun t ht => faithful t (List.mem_append_left _ ht)) sourced
    have rest := ih nodupRest (fun t ht => faithful t (List.mem_append_right _ ht)) visited.sourced
    -- The operands after this one have other identifiers, so they leave its origins alone.
    have fresh : op.id ∉ Operation.idsIn ops := disjoint _ op.id_mem_subtree
    refine ⟨rest.sourced, fun e he => rest.remembers e (visited.remembers e he), .cons ?_ rest.values, fun i hi => ?_⟩
    · rw [rest.others _ fresh]
      exact visited.value
    · rw [Operation.not_mem_idsIn_cons] at hi
      rw [rest.others i hi.2, visited.others i hi.1]

/-- What a turn sees of its operands has origins, unless it comes from an operation that notes none. -/
theorem AllAccounted.known (h : AllAccounted op.operands m seen m') (traces : Traces rules ctx ⟨op, seen, m'⟩) :
    List.Forall₂ (Known m'.notes) op.operands seen := by
  obtain ⟨length, values⟩ := List.forall₂_iff_zip.1 h.values
  refine List.forall₂_iff_zip.2 ⟨length, fun {o s} hmem tainted => ?_⟩
  refine (values hmem tainted).resolve_left fun silent => ?_
  rw [traces.operands (o, s) hmem tainted] at silent
  cases silent

/-- An operation's own step is accounted for if its operands are. -/
theorem turn_accounted (sourced : Sourced m) (known : List.Forall₂ (Known m.notes) op.operands seen)
    (faithful : Faithful rules ctx ⟨op, seen, m⟩) :
    Visit.Ensures ((taint rules).own ctx ((taint rules).usualIn ctx) op seen) m fun v m' => Accounted [op.id] op m v m' := by
  by_cases isCall : IsCall op
  · exact call_accounted isCall sourced known faithful.1 faithful.2
  · exact own_accounted isCall sourced known faithful.1.aliases

theorem visit_tracks (op : Operation) (m : Machine Taint) :
    Visit.Ensures ((taint rules).visit ctx ((taint rules).usualIn ctx) op) m fun v m' =>
      Tracks rules ctx op m v m' ((taint rules).turnsOf ctx ((taint rules).usualIn ctx) op m) := by
  refine visit_along (T := Tracks rules ctx) (fun op m seen m₁ c trail v m₂ run nodup faithful sourced => ?_) op m
  have turn : Faithful rules ctx ⟨op, seen, m₁⟩ := faithful _ (List.mem_append_right _ List.mem_cons_self)
  have operands := operands_accounted trail (Operation.nodup_operands nodup)
    (fun t ht => faithful t (List.mem_append_left _ ht)) sourced
  have own := turn_accounted operands.sourced (operands.known turn.1) turn v m₂ run
  refine ⟨⟨own.sourced.entities, own.sourced.hits, own.sourced.files⟩, fun e he => own.remembers e (operands.remembers e he),
    own.value, fun i hi => ?_⟩
  rw [Operation.map_id_subtree, List.mem_append, not_or] at hi
  exact (own.others i hi.2).trans (operands.others i hi.1)

/-! ### Blocks -/

/-- A part of a run with these turns keeps machines sourced if they are faithful. -/
def KeepsSourced (rules : TaintRules) (ctx : Context Taint) (m : Machine Taint) (c : List (Visit.Turn Taint))
    (m' : Machine Taint) : Prop :=
  (∀ t ∈ c, Faithful rules ctx t) → Sourced m → Sourced m' ∧ m.notes.Remembers m'.notes

theorem KeepsSourced.trans (h : KeepsSourced rules ctx m c m') (h' : KeepsSourced rules ctx m' d m'') :
    KeepsSourced rules ctx m (c ++ d) m'' := by
  intro faithful sourced
  obtain ⟨sourced', remembers⟩ := h (fun t ht => faithful t (List.mem_append_left _ ht)) sourced
  obtain ⟨sourced'', remembers'⟩ := h' (fun t ht => faithful t (List.mem_append_right _ ht)) sourced'
  exact ⟨sourced'', fun e he => remembers' e (remembers e he)⟩

theorem keepsSourced_steady : Visit.Steady fun m m' => KeepsSourced rules ctx m [] m' where
  refl _ _ sourced := ⟨sourced, fun _ h => h⟩
  trans h h' := h.trans h'

/-- The identifiers in each operation that stands for itself are distinct. -/
def DistinctWithin (g : Graph) : Prop := ∀ op ∈ g.operations, (op.subtree.map (·.id)).Nodup

theorem keepsPace (distinct : DistinctWithin ctx.graph) :
    KeepsPace (taint rules) ctx ((taint rules).usualIn ctx) (KeepsSourced rules ctx) where
  refl := keepsSourced_steady.refl
  trans := KeepsSourced.trans
  before _ _ _ sourced := ⟨⟨sourced.entities, sourced.hits, sourced.files⟩, fun _ h => h⟩
  scope locals m := by
    have left : Visit.Relates (fun m m' => KeepsSourced rules ctx m [] m') ((taint rules).leaveScope locals) :=
      keepsSourced_steady.forM fun x _ => keepsSourced_steady.bind keepsSourced_steady.notes fun notes m => by
        refine (Visit.ensures_update _ m _).2 fun s hs _ sourced => ?_
        obtain rfl : m.state.erase (notes.resolver.localVar x) = s := Except.ok.inj hs
        exact ⟨⟨sourced.entities.erase _, sourced.hits, sourced.files⟩, fun _ h => h⟩
    exact left m
  visit op hop m := (visit_tracks op m).mono fun _ _ tracks faithful sourced => by
    have accounted := tracks (distinct op hop) faithful sourced
    exact ⟨accounted.sourced, accounted.remembers⟩

/-! ### Runs -/

/-- A state without untrusted data. -/
def Trusted (s : State Taint) : Prop := ∀ e, s.find? e ≠ some .tainted

/-- The hits so far have sources, and origins are noted for all untrusted data in the states of blocks. -/
structure Progressed (p : Progress Taint) (m : Machine Taint) : Prop where
  /-- The hits of the body. -/
  hits : m.notes.hits.Evident
  /-- The hits of bodies whose solutions are on file. -/
  files : m.ledger.Files Solution.Evident
  /-- The states at the start of blocks. -/
  entries : ∀ b s, p.entries.find? b = some s → m.notes.Covers s
  /-- The states at the end of blocks. -/
  exits : ∀ b s, p.exits.find? b = some s → m.notes.Covers s

/-- A part of a run with these turns goes on that way if they are faithful. -/
def KeepsProgressed (rules : TaintRules) (ctx : Context Taint) (p : Progress Taint) (m : Machine Taint)
    (c : List (Visit.Turn Taint)) (p' : Progress Taint) (m' : Machine Taint) : Prop :=
  (∀ t ∈ c, Faithful rules ctx t) → Progressed p m → Progressed p' m'

variable {p p' p'' : Progress Taint}

theorem KeepsProgressed.trans (h : KeepsProgressed rules ctx p m c p' m') (h' : KeepsProgressed rules ctx p' m' d p'' m'') :
    KeepsProgressed rules ctx p m (c ++ d) p'' m'' := fun faithful progressed =>
  h' (fun t ht => faithful t (List.mem_append_right _ ht))
    (h (fun t ht => faithful t (List.mem_append_left _ ht)) progressed)

theorem Progressed.enter (h : Progressed p m) {b : BlockId} {s : State Taint} (covers : m.notes.Covers s) :
    Progressed (p.enter b s) m where
  hits := h.hits
  files := h.files
  entries _ _ hs := FinMap.find?_insert_ind hs covers h.entries
  exits := h.exits

theorem Progressed.leave (h : Progressed p m) {b : BlockId} {s : State Taint} (covers : m.notes.Covers s) :
    Progressed (p.leave b s) m where
  hits := h.hits
  files := h.files
  entries := h.entries
  exits _ _ hs := FinMap.find?_insert_ind hs covers h.exits

/-- What was covered is covered when more origins are noted. -/
theorem Progressed.later (h : Progressed p m) (sourced : Sourced m') (remembers : m.notes.Remembers m'.notes) :
    Progressed p m' where
  hits := sourced.hits
  files := sourced.files
  entries b s hs := (h.entries b s hs).mono remembers
  exits b s hs := (h.exits b s hs).mono remembers

theorem covers_of_trusted {n : Notes Taint} {s : State Taint} (trusted : Trusted s) : n.Covers s :=
  fun e he => absurd he (trusted e)

/-- A body starts without untrusted data, unless its caller passes it some. -/
theorem trusted_initialState {initial : State Taint} (entry : ∀ s ∈ ctx.entry, Trusted s)
    (h : (taint rules).initialState ctx = .ok initial) : Trusted initial := by
  intro e tainted
  cases hentry : ctx.entry with
  | some s =>
    rw [initialState, hentry] at h
    obtain rfl : s = initial := Except.ok.inj h
    exact entry s hentry e tainted
  | none =>
    rw [initialState_eq_defaultEntry hentry] at h
    have held := valueOr_defaultEntry h e
    rw [State.valueOr_of_find? _ tainted] at held
    rcases held with ⟨-, h⟩ | ⟨-, h⟩ <;> cases h

/-- Origins are noted for what a block is visited with. -/
theorem Progressed.covers_next (h : Progressed p m) {initial input : State Taint} (trusted : Trusted initial) {b : Block}
    {threshold : Nat} (next : p.nextEntry Domain.taint ctx.graph threshold initial b = some input) :
    m.notes.Covers input := by
  obtain ⟨inflow, hinflow, widened⟩ := Progress.eq_of_nextEntry_eq_some next
  have covers : m.notes.Covers inflow :=
    Progress.inflow_induction (covers_of_trusted trusted) (fun _ _ => Notes.Covers.merge) h.exits hinflow
  rcases widened with rfl | ⟨-, previous, hprevious, -, rfl⟩
  · exact covers
  · exact (h.entries b.id previous hprevious).widen covers

theorem visitBlock_keepsProgressed (distinct : DistinctWithin ctx.graph) {initial : State Taint} (trusted : Trusted initial)
    {b : Block} (hb : b ∈ sweepOrder ctx.graph) (p : Progress Taint) (m : Machine Taint) :
    Visit.Ensures ((taint rules).visitBlock ctx ((taint rules).usualIn ctx) initial b p) m fun r m' =>
      KeepsProgressed rules ctx p m ((taint rules).turnsOfVisit ctx ((taint rules).usualIn ctx) initial b p m) r.1 m' := by
  refine visitBlock_along (S := KeepsProgressed rules ctx) (fun _ h => h) fun input next => ?_
  refine ((keepsPace distinct).runBlock hb input m).mono fun out m' visited => ?_
  obtain ⟨rfl, keeps⟩ := visited
  -- The state at the end is noted only if it is new.
  have both (faithful : ∀ t ∈ (taint rules).turnsOfBlock ctx ((taint rules).usualIn ctx) b input m, Faithful rules ctx t)
      (h : Progressed p m) : Progressed (p.enter b.id input) m' ∧ m'.notes.Covers m'.state := by
    have covers := h.covers_next trusted next
    obtain ⟨sourced, remembers⟩ := keeps faithful ⟨covers, h.hits, h.files⟩
    exact ⟨(h.enter covers).later sourced remembers, sourced.entities⟩
  exact ⟨fun faithful h => (both faithful h).1, fun faithful h => (both faithful h).1.leave (both faithful h).2⟩

/-- If the turns of a run are faithful, its hits have sources, and so have those on file. -/
theorem solve_evident {ledger ledger' : Ledger Taint} {sol : Solution Taint} (distinct : DistinctWithin ctx.graph)
    (entry : ∀ s ∈ ctx.entry, Trusted s) (faithful : ∀ t ∈ (taint rules).course ctx ledger, Faithful rules ctx t)
    (files : ledger.Files Solution.Evident) (run : ((taint rules).solve ctx).run ledger = (.ok sol, ledger')) :
    sol.Evident ∧ ledger'.Files Solution.Evident := by
  obtain ⟨p, m, keeps, rfl, rfl⟩ := solve_along (S := KeepsProgressed rules ctx) (fun _ _ _ h => h) KeepsProgressed.trans
    (fun _ _ _ h => ⟨h.hits, h.files, h.entries, h.exits⟩)
    (fun initial hinitial b hb p m => visitBlock_keepsProgressed distinct (trusted_initialState entry hinitial) hb p m) run
  have start : Progressed Progress.start (startOf ctx ledger) :=
    ⟨HitLog.evident_empty, files, fun b s hs => by simp [Progress.start] at hs, fun b s hs => by simp [Progress.start] at hs⟩
  have settled := keeps faithful start
  exact ⟨settled.hits.hits, settled.files⟩

/-! ### Everything that a run causes -/

/-- In a run over a body untrusted data goes nowhere without its origins. -/
structure Traced (rules : TaintRules) (ctx : Context Taint) (ledger : Ledger Taint) : Prop where
  /-- Origins are noted for one operation at a time. -/
  distinct : DistinctWithin ctx.graph
  /-- Callers pass none. -/
  entry : ∀ s ∈ ctx.entry, Trusted s
  /-- Operations pass it on with its origins. -/
  turns : ∀ t ∈ (taint rules).course ctx ledger, Traces rules ctx t

instance (g : Graph) : Decidable (DistinctWithin g) :=
  inferInstanceAs (Decidable (∀ op ∈ g.operations, (op.subtree.map (·.id)).Nodup))

instance (s : State Taint) : Decidable (Trusted s) :=
  decidable_of_iff (∀ x ∈ s.entries, x.2 ≠ .tainted)
    ⟨fun h e he => h (e, .tainted) (FinMap.mem_entries.2 he) rfl,
      fun h x hx tainted => h x.1 (tainted ▸ FinMap.mem_entries.1 hx)⟩

instance (t : Visit.Turn Taint) : Decidable (Traces rules ctx t) :=
  decidable_of_iff (_ ∧ _ ∧ _) ⟨fun h => ⟨h.1, h.2.1, h.2.2⟩, fun h => ⟨h.operands, h.aliases, h.callees⟩⟩

instance (ledger : Ledger Taint) : Decidable (Traced rules ctx ledger) :=
  decidable_of_iff (_ ∧ _ ∧ _) ⟨fun h => ⟨h.1, h.2.1, h.2.2⟩, fun h => ⟨h.distinct, h.entry, h.turns⟩⟩

/-- All hits that are found in a body and in what it calls have sources, if untrusted data goes nowhere without its origins
in the runs over these bodies. -/
theorem hits_evident {cancelled : Bool} {ledger : Ledger Taint} {sol : Solution Taint}
    (traced : ∀ r ∈ (taint rules).runs (leavesToUsual rules) ctx (Ledger.start cancelled), Traced rules r.1 r.2)
    (run : ((taint rules).solve ctx).run (Ledger.start cancelled) = (.ok sol, ledger)) :
    ∀ hit ∈ sol.hits.hits, hit.sources ≠ FinSet.empty := by
  have evident : sol.Evident ∧ ledger.Files Solution.Evident :=
    of_runs (P := Solution.Evident) (G := Traced rules)
      (fun good files answers run => solve_evident good.distinct good.entry
        (fun t ht => ⟨good.turns t ht, answers t ht⟩) files run)
      traced (Ledger.files_start _ _) run
  exact evident.1

/-! ### Untrusted data in a callee -/

namespace Forwarded

open Nodes

/-- Input is untrusted, and must not be executed. -/
def policy : TaintRules := TaintRules.ofConfig (KnownTypes.ofList [⟨"Input", true⟩, ⟨"Db", true⟩])
  ⟨[.method "Input" "read"], [], [⟨"Db", "execute", []⟩]⟩

/-- A call with one argument. -/
def call (id : UInt32) (method : Symbol) (argument : Operation) : Operation :=
  .invocation (info id none) method none [⟨none, argument, .value⟩]

/-- Executes something. -/
def execute : Symbol := Symbol.method "Db" "execute" none

/-- Reads input. -/
def read (id : UInt32) : Operation := .invocation (info id int) (Symbol.method "Input" "read" int) none []

/-- The callee. -/
def forward : Symbol := Symbol.method "C" "forward" none

/-- Its parameter. -/
def parameter : Symbol := ⟨"p", .parameter, int, none, .value, 0⟩

/-- Executes what it gets. -/
def callee : Graph :=
  ⟨forward, [parameter], [⟨⟨0⟩, .entry, [call 11 execute (.parameterRef (info 10 int) parameter)], none,
    [⟨⟨1⟩, .regular⟩], []⟩, .bare ⟨1⟩ .exit]⟩

/-- Calls are followed in context. -/
def context (operations : List Operation) : Context Taint :=
  Context.start (body operations) { Config.usual with calls := CallConfig.usual .inContext } fun m =>
    if m = forward then some callee else none

/-- The local that input is kept in. -/
def kept (id : UInt32) : Operation := .localRef (info id int) (Symbol.localVar "x" int)

/-- Keeps input, forwards a number, and then executes the input. -/
def direct : List Operation :=
  [.assignment (info 2 int) (kept 0) (read 1), call 4 forward (.literal (info 3 int) (.integer 1)), call 6 execute (kept 5)]

/-- Forwards input. -/
def indirect : List Operation := [call 4 forward (read 3)]

end Forwarded

open Forwarded in
/-- The callee gets a number, and the input that the caller keeps and executes is traced. -/
theorem hits_evident_direct : ∃ sol ledger hit,
    ((taint policy).solve (context direct)).run (Ledger.start false) = (.ok sol, ledger) ∧ hit ∈ sol.hits.hits ∧
      hit.sources ≠ FinSet.empty := by
  have first : ((((taint policy).solve (context direct)).run (Ledger.start false)).1.toOption.bind fun sol =>
      sol.hits.hits.head?.map fun _ => ()) = some () := by
    decide +kernel
  obtain ⟨sol, ledger, hit, run, found, -⟩ := exists_of_inspected first
  have hmem := List.mem_of_head? found
  exact ⟨sol, ledger, hit, run, hmem, hits_evident (by decide +kernel) run hit hmem⟩

open Forwarded in
/-- What the callee gets is untrusted and is executed, but in the callee nobody knows where it comes from. -/
theorem not_hits_evident : ∃ sol ledger hit,
    ((taint policy).solve (context indirect)).run (Ledger.start false) = (.ok sol, ledger) ∧ hit ∈ sol.hits.hits ∧
      hit.sources = FinSet.empty := by
  have first : ((((taint policy).solve (context indirect)).run (Ledger.start false)).1.toOption.bind fun sol =>
      sol.hits.hits.head?.map fun hit => hit.sources) = some FinSet.empty := by
    decide +kernel
  obtain ⟨sol, ledger, hit, run, found, none⟩ := exists_of_inspected first
  exact ⟨sol, ledger, hit, run, List.mem_of_head? found, none⟩

end TaintAnalysis

end Analysis

end Dataflow
