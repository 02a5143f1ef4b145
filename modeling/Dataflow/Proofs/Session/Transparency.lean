import Dataflow.Proofs.Calls.Unfollowed
import Dataflow.Proofs.Session.Keys
import Dataflow.Session.Pool

/-!
# What sessions answer from a common cache

A session answers from the cache what may have been computed for another session. That is its own answer
only if the other session would have computed the same.

## The notions

* `Session.answer`: what a session finds out without any cache.
* `Pool.Consistent`: requests whose keys say all that their answers depend on.
* `Pool.Truthful`: every result in the cache is the answer to each of the requests that has its key.

## What is proved

Truthful caches stay so, and from a truthful cache a session answers what it finds out without any
(`Pool.analyze_answers`). So the answers to consistent requests are those of sessions with caches
of their own (`Pool.askAll_eq`).
-/

namespace Dataflow

/-! ### Answers without a cache -/

namespace Session

variable (s : Session) (g : Graph) (config : Config)

/-- What a run over a body knows from outside. -/
def context {V : Type} (pointsTo : Option (Solution PointsTo)) (copies : Option (Solution CopyClass)) : Context V :=
  { Context.start g config s.bodies with pointsTo, copies }

/-- What a run over a body finds out that nobody has cancelled. -/
def runAlone {V : Type} [DecidableEq V] (A : Analysis V) (pointsTo : Option (Solution PointsTo))
    (copies : Option (Solution CopyClass)) : Except Failure (Solution V) :=
  ((A.solve (s.context g config pointsTo copies)).run (Ledger.start false)).1

/-- The points-to solution that another analysis uses. -/
def pointsToUsed : Except Failure (Option (Solution PointsTo)) := do
  if config.pointsToUse = .none then return none
  return some (← s.runAlone g config Analysis.pointsTo none none)

/-- The copies in a body. -/
def copiesIn : Except Failure (Solution CopyClass) := do
  s.runAlone g config Analysis.copies (← s.pointsToUsed g config) none

/-- The copies that another analysis uses. -/
def copiesUsed : Except Failure (Option (Solution CopyClass)) := do
  if !config.usesCopies then return none
  return some (← s.copiesIn g config)

/-- The literal content in a body. -/
def contentsIn : Except Failure (Solution Content) := do
  let pointsTo ← s.pointsToUsed g config
  s.runAlone g config Analysis.contents pointsTo (← s.copiesUsed g config)

/-- The untrusted data in a body. -/
def taintIn (taint : TaintConfig) : Except Failure (Solution Taint) := do
  s.runAlone g config (Analysis.taint (TaintRules.ofConfig s.types taint)) (← s.pointsToUsed g config) none

/-- What an analysis finds out about a body. -/
def answer (taint : TaintConfig) : AnalysisKind → Except Failure Outcome
  | .pointsTo => .pointsTo <$> s.runAlone g config Analysis.pointsTo none none
  | .copy => .copy <$> s.copiesIn g config
  | .valueContent => .valueContent <$> s.contentsIn g config
  | .taintedData => .taintedData <$> s.taintIn g config taint

variable {s} {s' : Session} {g} {config}

/-- Sessions with the same bodies find out the same; without following calls, all sessions do. -/
theorem runAlone_congr {V : Type} [DecidableEq V] {A : Analysis V} (H : A.Inward)
    (h : config.calls.handling ≠ .none → s.bodies = s'.bodies) (pointsTo : Option (Solution PointsTo))
    (copies : Option (Solution CopyClass)) :
    s.runAlone g config A pointsTo copies = s'.runAlone g config A pointsTo copies := by
  unfold runAlone
  by_cases hnone : config.calls.handling = .none
  · rw [← Analysis.solve_bodies (s.context g config pointsTo copies) H s'.bodies hnone]
    rfl
  · unfold context
    rw [h hnone]

theorem answer_congr {taint taint' : TaintConfig} {kind : AnalysisKind}
    (bodies : config.calls.handling ≠ .none → s.bodies = s'.bodies)
    (rules : kind = .taintedData → TaintRules.ofConfig s.types taint = TaintRules.ofConfig s'.types taint') :
    s.answer g config taint kind = s'.answer g config taint' kind := by
  have pointsTo : s.pointsToUsed g config = s'.pointsToUsed g config := by
    unfold pointsToUsed
    rw [runAlone_congr Analysis.pointsTo_inward bodies]
  have copies : s.copiesIn g config = s'.copiesIn g config := by
    unfold copiesIn
    simp only [pointsTo, runAlone_congr Analysis.copies_inward bodies]
  have copiesUsed : s.copiesUsed g config = s'.copiesUsed g config := by
    unfold copiesUsed
    rw [copies]
  cases kind with
  | pointsTo => simp only [answer, runAlone_congr Analysis.pointsTo_inward bodies]
  | copy => simp only [answer, copies]
  | valueContent =>
    simp only [answer, contentsIn, pointsTo, copiesUsed, runAlone_congr Analysis.contents_inward bodies]
  | taintedData =>
    simp only [answer, taintIn, pointsTo, rules rfl, runAlone_congr (Analysis.taint_inward _) bodies]

end Session

namespace Pool

variable {sessions : Nat → Session} {l : List Inquiry}

/-! ### Consistent requests -/

variable (sessions) in
/-- The keys of the requests say all that the answers depend on, and nobody cancels the work. -/
structure Consistent (l : List Inquiry) : Prop where
  /-- No filter cancels the work. -/
  calm : ∀ q ∈ l, q.config.NeverCancels
  /-- Labels tell graphs apart. -/
  graphs : ∀ q ∈ l, ∀ q' ∈ l, q.graph.label = q'.graph.label → q.graph = q'.graph
  /-- Labels tell filters apart. -/
  configs : ∀ q ∈ l, ∀ q' ∈ l, (q.config == q'.config) = true → q.config = q'.config
  /-- Sessions that are asked to follow calls from one body in one way know the same bodies. -/
  bodies : ∀ q ∈ l, ∀ q' ∈ l, q.graph = q'.graph → q.config = q'.config → q.config.calls.handling ≠ .none →
    (sessions q.session).bodies = (sessions q'.session).bodies
  /-- Sessions that are asked about one body with the same taint rules know the same types, as far as rules are
  about them. -/
  rules : ∀ q ∈ l, ∀ q' ∈ l, q.graph = q'.graph → q.config = q'.config → q.taint = q'.taint →
    q.kind = .taintedData → q'.kind = .taintedData →
      TaintRules.ofConfig (sessions q.session).types q.taint = TaintRules.ofConfig (sessions q'.session).types q'.taint

/-- The key of an analysis that a request is for, or that is used on the way. -/
def keyOf (q : Inquiry) (kind : AnalysisKind) : CacheKey (Option TaintConfig) :=
  ⟨kind, q.graph.label, q.config, if kind = .taintedData then some q.taint else none⟩

/-- The answer of an analysis that a request is for, or that is used on the way. -/
def answerTo (sessions : Nat → Session) (q : Inquiry) (kind : AnalysisKind) : Except Failure Outcome :=
  (sessions q.session).answer q.graph.graph q.config q.taint kind

/-- The taint analysis is not used by others. -/
def Needs (q : Inquiry) (kind : AnalysisKind) : Prop := kind = .taintedData → q.kind = .taintedData

variable (sessions l) in
/-- Every result in the cache is the answer to each of the requests that has its key. -/
def Truthful (c : ResultCache) : Prop :=
  ∀ e ∈ c.entries, ∀ q ∈ l, ∀ kind, Needs q kind → (e.1 == keyOf q kind) = true →
    answerTo sessions q kind = .ok e.2.value

/-- Requests with one key have one answer. -/
theorem Consistent.answer_eq (consistent : Consistent sessions l) {q q' : Inquiry} (hq : q ∈ l) (hq' : q' ∈ l)
    {kind kind' : AnalysisKind} (needs : Needs q kind) (needs' : Needs q' kind')
    (h : (keyOf q kind == keyOf q' kind') = true) : answerTo sessions q kind = answerTo sessions q' kind' := by
  obtain ⟨rfl, hgraph, hconfig, htaint⟩ : kind = kind' ∧ _ := CacheKey.beq_iff.1 h
  have graph := consistent.graphs q hq q' hq' hgraph
  have config := consistent.configs q hq q' hq' hconfig
  unfold answerTo
  rw [graph, config]
  refine Session.answer_congr (fun hnone => ?_) fun hkind => ?_
  · exact consistent.bodies q hq q' hq' graph config (config ▸ hnone)
  · subst hkind
    have taint : q.taint = q'.taint := by simpa [keyOf] using htaint
    exact consistent.rules q hq q' hq' graph config taint (needs rfl) (needs' rfl)

/-! ### Requests -/

variable (sessions l) in
/-- From truthful caches the request gives the answer that is expected, as far as `f` tells; the cache stays
truthful, and the work is not cancelled. -/
def Answers {α β : Type} (x : Request α) (f : α → β) (expected : Except Failure β) : Prop :=
  ∀ c j, Truthful sessions l c → j.cancelled = false →
    (x.run (c, j)).1.map f = expected ∧ Truthful sessions l (x.run (c, j)).2.1 ∧ (x.run (c, j)).2.2.cancelled = false

theorem Answers.pure {α β : Type} {f : α → β} {a : α} : Answers sessions l (pure a) f (.ok (f a)) :=
  fun _ _ truthful calm => ⟨rfl, truthful, calm⟩

theorem Answers.bind {α β γ δ : Type} {x : Request α} {f : α → β} {r : Except Failure β} {g : α → Request γ} {f' : γ → δ}
    {r' : β → Except Failure δ} (hx : Answers sessions l x f r)
    (hg : ∀ a, r = .ok (f a) → Answers sessions l (g a) f' (r' (f a))) : Answers sessions l (x >>= g) f' (r >>= r') := by
  intro c j truthful calm
  have first := hx c j truthful calm
  rw [Visit.run_bind]
  rcases hrun : x.run (c, j) with ⟨e | a, c', j'⟩
  · rw [hrun] at first
    obtain ⟨rfl, truthful', calm'⟩ := first
    exact ⟨rfl, truthful', calm'⟩
  · rw [hrun] at first
    obtain ⟨rfl, truthful', calm'⟩ := first
    exact hg a rfl c' j' truthful' calm'

/-- The result of a request is made into an outcome. -/
theorem Answers.wrap {β : Type} {x : Request (Stored β)} {r : Except Failure β} (hx : Answers sessions l x (·.value) r)
    (w : β → Outcome) : Answers sessions l (do
      let stored ← x
      return ⟨stored.number, w stored.value⟩) Stored.value (w <$> r) := by
  rw [map_eq_pure_bind]
  exact hx.bind fun _ _ => .pure

/-- A result that was found is added, if it is right for one request that has its key. -/
theorem Truthful.complete (consistent : Consistent sessions l) {q : Inquiry} (hq : q ∈ l) {kind : AnalysisKind}
    (needs : Needs q kind) {o : Outcome} (right : answerTo sessions q kind = .ok o) {c : ResultCache}
    (truthful : Truthful sessions l c) : Truthful sessions l (c.complete (keyOf q kind) o) := by
  intro e he q' hq' kind' needs' hkey
  rcases List.mem_cons.1 he with rfl | he
  · rw [← consistent.answer_eq hq hq' needs needs' hkey, right]
  · exact truthful e he q' hq' kind' needs' hkey

/-- An analysis is requested: its result is in the cache, or a run has it. -/
theorem request_answers (consistent : Consistent sessions l) {q : Inquiry} (hq : q ∈ l) {kind : AnalysisKind}
    (needs : Needs q kind) {β : Type} {view : Cache.View Outcome β} (reads : ∀ b, view.read (view.write b) = some b)
    {found : Except Failure β} (known : answerTo sessions q kind = view.write <$> found)
    {compute : ExceptT Failure (StateM Journal) β}
    (computes : ∀ j, j.cancelled = false → (compute.run j).1 = found ∧ (compute.run j).2.cancelled = false) :
    Answers sessions l (Cache.request view .mistyped (keyOf q kind) compute) (·.value) found := by
  intro c j truthful calm
  show (Cache.request view Failure.mistyped (keyOf q kind) compute (c, j)).1.map _ = _ ∧
    Truthful sessions l (Cache.request view Failure.mistyped (keyOf q kind) compute (c, j)).2.1 ∧
      (Cache.request view Failure.mistyped (keyOf q kind) compute (c, j)).2.2.cancelled = false
  unfold Cache.request
  dsimp only
  cases hfind : c.find? (keyOf q kind) with
  | some stored =>
    obtain ⟨e, he, rfl⟩ := Option.map_eq_some_iff.1 hfind
    have hkey := List.find?_some he
    have right := truthful e (List.mem_of_find?_eq_some he) q hq kind needs hkey
    rw [known] at right
    cases found with
    | error f => cases right
    | ok b =>
      obtain hvalue : view.write b = e.2.value := Except.ok.inj right
      simp only [← hvalue, reads]
      exact ⟨rfl, truthful, calm⟩
  | none =>
    obtain ⟨result, calm'⟩ := computes j calm
    rcases hrun : compute.run j with ⟨f | b, j'⟩
    · rw [hrun] at result calm'
      exact ⟨result ▸ rfl, truthful, calm'⟩
    · rw [hrun] at result calm'
      refine ⟨result ▸ rfl, ?_, calm'⟩
      exact Truthful.complete consistent hq needs (by rw [known, ← result]; rfl) truthful

theorem cancelled_log (logs : Bool) (e : RunEvent) (j : Journal) : (if logs then j.log e else j).cancelled = j.cancelled := by
  cases logs <;> rfl

/-- A run that is requested finds out what a run without a cache does. -/
theorem compute_answers (consistent : Consistent sessions l) {q : Inquiry} (hq : q ∈ l) {V : Type} [DecidableEq V]
    {view : Cache.View Outcome (Solution V)} (reads : ∀ sol, view.read (view.write sol) = some sol)
    {A : Analysis V} (H : A.Apart) (needs : Needs q A.kind)
    {pointsTo : Option (Solution PointsTo)} {copies : Option (Solution CopyClass)} {prepare : Context V → Context V}
    (prepared : prepare (Context.start q.graph.graph q.config (sessions q.session).bodies) =
      (sessions q.session).context q.graph.graph q.config pointsTo copies)
    (known : answerTo sessions q A.kind =
      view.write <$> (sessions q.session).runAlone q.graph.graph q.config A pointsTo copies) :
    Answers sessions l ((sessions q.session).compute view A q.graph q.config
        (if A.kind = .taintedData then some q.taint else none) prepare) (·.value)
      ((sessions q.session).runAlone q.graph.graph q.config A pointsTo copies) := by
  refine request_answers consistent hq needs reads known fun j calm => ?_
  have running : ((A.solve ((sessions q.session).context q.graph.graph q.config pointsTo copies)).run
      (Ledger.start false)).2.cancelled = false :=
    Analysis.running_solve H (consistent.calm q hq) rfl
  obtain ⟨events, cancelled⟩ := j
  obtain rfl : cancelled = false := calm
  simp only [prepared, ExceptT.run]
  cases (sessions q.session).observed with
  | false => exact ⟨rfl, running⟩
  | true => exact ⟨rfl, (cancelled_log _ _ _).trans running⟩

variable (consistent : Consistent sessions l) {q : Inquiry} (hq : q ∈ l)
include consistent hq

theorem pointsTo_answers : Answers sessions l ((sessions q.session).pointsTo q.graph q.config) (·.value)
    ((sessions q.session).runAlone q.graph.graph q.config Analysis.pointsTo none none) :=
  compute_answers consistent hq (fun _ => rfl) Analysis.pointsTo_apart (fun h => by cases h) rfl rfl

theorem pointsToFor_answers : Answers sessions l ((sessions q.session).pointsToFor q.graph q.config) id
    ((sessions q.session).pointsToUsed q.graph.graph q.config) := by
  unfold Session.pointsToFor Session.pointsToUsed
  split
  · exact .pure
  · exact (pointsTo_answers consistent hq).bind fun stored _ => .pure

theorem copy_answers : Answers sessions l ((sessions q.session).copy q.graph q.config) (·.value)
    ((sessions q.session).copiesIn q.graph.graph q.config) := by
  refine (pointsToFor_answers consistent hq).bind fun pointsTo hpointsTo => ?_
  refine compute_answers consistent hq (fun _ => rfl) Analysis.copies_apart (fun h => by cases h) rfl ?_
  simp only [answerTo, Analysis.copies, Session.answer, Session.copiesIn, hpointsTo]
  rfl

theorem copyFor_answers : Answers sessions l ((sessions q.session).copyFor q.graph q.config) id
    ((sessions q.session).copiesUsed q.graph.graph q.config) := by
  unfold Session.copyFor Session.copiesUsed
  split
  · exact .pure
  · exact (copy_answers consistent hq).bind fun stored _ => .pure

theorem valueContent_answers : Answers sessions l ((sessions q.session).valueContent q.graph q.config) (·.value)
    ((sessions q.session).contentsIn q.graph.graph q.config) := by
  refine (pointsToFor_answers consistent hq).bind fun pointsTo hpointsTo =>
    (copyFor_answers consistent hq).bind fun copies hcopies => ?_
  refine compute_answers consistent hq (fun _ => rfl) Analysis.contents_apart (fun h => by cases h) rfl ?_
  simp only [answerTo, Analysis.contents, Session.answer, Session.contentsIn, hpointsTo, hcopies]
  rfl

theorem taintedData_answers (hkind : q.kind = .taintedData) :
    Answers sessions l ((sessions q.session).taintedData q.graph q.config q.taint) (·.value)
      ((sessions q.session).taintIn q.graph.graph q.config q.taint) := by
  refine (pointsToFor_answers consistent hq).bind fun pointsTo hpointsTo => ?_
  refine compute_answers consistent hq (fun _ => rfl) (Analysis.taint_apart _) (fun _ => hkind) rfl ?_
  simp only [answerTo, Analysis.taint, Session.answer, Session.taintIn, hpointsTo]
  rfl

/-- From a truthful cache a session answers what it finds out without any. -/
theorem analyze_answers : Answers sessions l
    ((sessions q.session).analyze q.kind q.graph q.config q.taint) (·.value) (answerTo sessions q q.kind) := by
  unfold answerTo Session.analyze
  cases hkind : q.kind with
  | pointsTo => exact (pointsTo_answers consistent hq).wrap Outcome.pointsTo
  | copy => exact (copy_answers consistent hq).wrap Outcome.copy
  | valueContent => exact (valueContent_answers consistent hq).wrap Outcome.valueContent
  | taintedData => exact (taintedData_answers consistent hq hkind).wrap Outcome.taintedData

/-! ### Histories -/

/-- The cache is truthful, and no work is cancelled. -/
def Good (sessions : Nat → Session) (l : List Inquiry) (p : Pool) : Prop :=
  Truthful sessions l p.cache ∧ ∀ i, (p.journals i).cancelled = false

omit consistent hq in
theorem clean_good : Good sessions l clean := ⟨fun _ he => (List.not_mem_nil he).elim, fun _ => rfl⟩

/-- A request is answered as without a cache, and the cache stays truthful. -/
theorem ask_good {p : Pool} (good : Good sessions l p) :
    (ask sessions q p).1 = answerTo sessions q q.kind ∧ Good sessions l (ask sessions q p).2 := by
  obtain ⟨answer, truthful, calm⟩ := analyze_answers consistent hq p.cache (p.journals q.session) good.1 (good.2 _)
  refine ⟨answer, truthful, fun i => ?_⟩
  by_cases hi : i = q.session
  · exact (congrArg Journal.cancelled (if_pos hi)).trans calm
  · exact (congrArg Journal.cancelled (if_neg hi)).trans (good.2 i)

omit hq in
/-- Whatever consistent requests came before, a request is answered as by a session with a cache of its own. -/
theorem askAll_eq : (askAll sessions l clean).1 = l.map (answerAlone sessions) := by
  -- requests one after the other, from any good state
  have steps : ∀ qs : List Inquiry, (∀ q ∈ qs, q ∈ l) → ∀ p, Good sessions l p →
      (askAll sessions qs p).1 = qs.map fun q => answerTo sessions q q.kind := by
    intro qs
    induction qs with
    | nil => exact fun _ _ _ => rfl
    | cons q qs ih =>
      intro hqs p good
      obtain ⟨answer, good'⟩ := ask_good consistent (hqs q List.mem_cons_self) good
      have rest := ih (fun q' hq' => hqs q' (List.mem_cons_of_mem _ hq')) _ good'
      rw [askAll, List.mapM_cons]
      exact congrArg₂ List.cons answer rest
  rw [steps l (fun _ hq => hq) clean clean_good]
  exact List.map_congr_left fun q hq => (ask_good consistent hq clean_good).1.symm

end Pool

/-! ### Sessions that know different types -/

namespace Pool.Readers

/-- Where an operation stands does not matter. -/
def info (number : UInt32) : OperationInfo := ⟨⟨number⟩, none, ⟨0, 0⟩⟩

/-- A method that returns input. -/
def graph : LoadedGraph where
  label := .single 0
  graph :=
    { owner := Symbol.method "C" "main" none
      parameters := []
      blocks :=
        [⟨⟨0⟩, .entry, [.ret (info 1) (some (.invocation (info 0) (Symbol.method "Input" "read" none) none []))], none,
            [⟨⟨1⟩, .regular⟩], []⟩,
          ⟨⟨1⟩, .exit, [], none, [], []⟩] }

/-- Input is untrusted. -/
def taint : TaintConfig := ⟨[.method "Input" "read"], [], []⟩

/-- A session that knows some types. -/
def knowing (types : List TypeRef) : Session := { Session.bare with types := KnownTypes.ofList types }

/-- A request to a session. -/
def inquiry (session : Nat) (kind : AnalysisKind) : Inquiry := ⟨session, kind, graph, Config.usual, taint⟩

/-- Whether untrusted data is returned. -/
def untrusted : Except Failure Outcome → Bool
  | .ok (.taintedData sol) => sol.returned = some .tainted
  | _ => false

/-- Sessions that know what input is. The first one has no bodies. -/
def sessions : Nat → Session
  | 0 => knowing [⟨"Input", true⟩]
  | _ => { knowing [⟨"Input", true⟩] with provider := some fun _ => some graph }

end Pool.Readers

namespace Pool

open Readers in
/-- A session learns from what was computed for another one with other bodies, if calls are not followed. -/
theorem askAll_eq_readers :
    let l := [inquiry 0 .taintedData, inquiry 1 .valueContent, inquiry 1 .taintedData, inquiry 0 .copy]
    (askAll sessions l clean).1 = l.map (answerAlone sessions) ∧
      (askAll sessions l clean).1.map untrusted = [true, false, true, false] := by
  intro l
  have same : ∀ q ∈ l, q.graph = graph ∧ q.config = Config.usual ∧ q.taint = taint := by
    simp [l, inquiry]
  have types (i : Nat) : (sessions i).types = KnownTypes.ofList [⟨"Input", true⟩] := by
    cases i <;> rfl
  refine ⟨askAll_eq ⟨fun q hq f hf => ?_, fun q hq q' hq' _ => ?_, fun q hq q' hq' _ => ?_, fun q hq q' _ _ _ hnone => ?_,
    fun q hq q' hq' _ _ _ _ _ => ?_⟩, by decide +kernel⟩
  · rw [(same q hq).2.1] at hf
    cases hf
  · rw [(same q hq).1, (same q' hq').1]
  · rw [(same q hq).2.1, (same q' hq').2.1]
  · rw [(same q hq).2.1] at hnone
    exact absurd rfl hnone
  · rw [types, types, (same q hq).2.2, (same q' hq').2.2]

open Readers in
/-- If a session that does not know what input is asks first, then one that does is told that nothing untrusted is
returned. -/
theorem askAll_ne_alone :
    let sessions (i : Nat) : Session := knowing (if i = 0 then [] else [⟨"Input", true⟩])
    let l := [inquiry 0 .taintedData, inquiry 1 .taintedData]
    (askAll sessions l clean).1 ≠ l.map (answerAlone sessions) := by
  intro sessions l h
  have told : (askAll sessions l clean).1.map untrusted = [false, false] := by decide +kernel
  have alone : (l.map (answerAlone sessions)).map untrusted = [false, true] := by decide +kernel
  rw [h, alone] at told
  cases told

end Pool

end Dataflow
