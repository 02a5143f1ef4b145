import Mathlib.Data.List.Induction
import Dataflow.Proofs.Session.Keys
import Dataflow.Proofs.Visit.Ensures
import Dataflow.Session.Basic

/-!
# The work of a session

Requests overlap in what they depend on. The copy analysis may be requested for itself, for the analysis of
literal content, or both, and the points-to analysis for each of the others; all of them ask the cache.

## The notions

* `Job`: an analysis of a body; two are taken for equal if their keys are.
* `Job.dependencies`: what is requested before a job is run.
* `Ask`: a request to a session; `Session.needs` lists the jobs that it comes to.

## What is proved

If no request fails then each job that any of the requests needs was run once, when it was first needed
(`Session.askAll_work`): a request adds what it needs to what was done (`Request.Adds`).
-/

namespace Dataflow

/-! ### Lists without repetitions -/

section Repetitions

variable {α : Type} [BEq α] [EquivBEq α]

/-- What comes last is left out if it came before. -/
theorem eraseDups_concat (a : α) : ∀ l : List α,
    (l ++ [a]).eraseDups = if l.any (· == a) then l.eraseDups else l.eraseDups ++ [a]
  | [] => rfl
  | b :: l => by
    have shorter : (l.filter fun c => !c == b).length < l.length + 1 :=
      Nat.lt_succ_of_le (List.length_filter_le _ _)
    rw [List.cons_append, List.eraseDups_cons, List.eraseDups_cons, List.filter_append, List.any_cons]
    cases hb : b == a with
    | true =>
      have hab : (a == b) = true := BEq.symm hb
      simp [hab]
    | false =>
      have hab : (a == b) = false := by rw [BEq.comm, hb]
      have filtered : (l.filter fun c => !c == b).any (· == a) = l.any (· == a) := by
        rw [List.any_filter]
        refine congrArg (l.any ·) (funext fun c => ?_)
        cases hc : c == a with
        | false => rw [Bool.and_false]
        | true => rw [BEq.congr_left hc, hab]; rfl
      have rest := eraseDups_concat a (l.filter fun c => !c == b)
      rw [filtered] at rest
      simp only [List.filter_cons, List.filter_nil, hab, Bool.not_false, if_true, rest, Bool.false_or]
      split <;> rfl
termination_by l => l.length

/-- What comes later is left out if all of it came before. -/
theorem eraseDups_append (l r : List α) (h : ∀ a ∈ r, l.any (· == a) = true) : (l ++ r).eraseDups = l.eraseDups := by
  induction r using List.reverseRecOn with
  | nil => rw [List.append_nil]
  | append_singleton r a ih =>
    have before : (l ++ r).any (· == a) = true := by
      rw [List.any_append, h a (by simp), Bool.true_or]
    rw [← List.append_assoc, eraseDups_concat, if_pos before]
    exact ih fun b hb => h b (by simp [hb])

theorem any_eraseDups (l : List α) (a : α) : l.eraseDups.any (· == a) = l.any (· == a) := by
  induction l using List.reverseRecOn with
  | nil => rfl
  | append_singleton l b ih =>
    rw [eraseDups_concat, List.any_append]
    split
    · rename_i hb
      rw [ih]
      cases hba : b == a with
      | false => simp [hba]
      | true =>
        have : l.any (· == a) = true := by
          obtain ⟨c, hc, hcb⟩ := List.any_eq_true.1 hb
          exact List.any_eq_true.2 ⟨c, hc, BEq.trans hcb hba⟩
        simp [this]
    · rw [List.any_append, ih]

/-- What is left out at the beginning does not matter. -/
theorem eraseDups_append_congr {l l' : List α} (h : l.eraseDups = l'.eraseDups) (r : List α) :
    (l ++ r).eraseDups = (l' ++ r).eraseDups := by
  induction r using List.reverseRecOn with
  | nil => rwa [List.append_nil, List.append_nil]
  | append_singleton r a ih =>
    have any : (l ++ r).any (· == a) = (l' ++ r).any (· == a) := by rw [← any_eraseDups, ih, any_eraseDups]
    rw [← List.append_assoc, ← List.append_assoc, eraseDups_concat, eraseDups_concat, any, ih]

theorem pairwise_eraseDups (l : List α) : l.eraseDups.Pairwise fun a b => (a == b) = false := by
  induction l using List.reverseRecOn with
  | nil => exact .nil
  | append_singleton l b ih =>
    rw [eraseDups_concat]
    split
    · exact ih
    · rename_i hb
      refine List.pairwise_append.2 ⟨ih, List.pairwise_singleton _ _, fun a ha c hc => ?_⟩
      rw [List.mem_singleton.1 hc]
      rw [← any_eraseDups, Bool.not_eq_true, List.any_eq_false] at hb
      exact Bool.not_eq_true _ ▸ hb a ha

end Repetitions

/-! ### Jobs -/

/-- An analysis of a body. -/
structure Job where
  /-- Which analysis. -/
  kind : AnalysisKind
  /-- The body. -/
  graph : LoadedGraph
  /-- How it is to be run. -/
  config : Config
  /-- What else its result depends on. -/
  discriminator : Option TaintConfig

namespace Job

/-- The key of the result. -/
def key (job : Job) : CacheKey (Option TaintConfig) := ⟨job.kind, job.graph.label, job.config, job.discriminator⟩

instance : BEq Job := ⟨fun a b => a.key == b.key⟩

instance : EquivBEq Job where
  rfl {a} := (BEq.rfl : (a.key == a.key) = true)
  symm {a b} h := (BEq.symm h : (b.key == a.key) = true)
  trans {a _ c} h h' := (BEq.trans h h' : (a.key == c.key) = true)

/-- The events of the job, if it comes to an end. -/
def events (job : Job) : List RunEvent :=
  [.started job.kind job.graph.graph.owner, .completed job.kind job.graph.graph.owner]

/-- The points-to analysis that the job uses, if it does. -/
def pointsTo (job : Job) : List Job :=
  if job.config.pointsToUse = .none then [] else [⟨.pointsTo, job.graph, job.config, none⟩]

/-- The copy analysis that the job uses, if it does. -/
def copy (job : Job) : List Job :=
  if job.config.usesCopies then [⟨.copy, job.graph, job.config, none⟩] else []

/-- What the job depends on. -/
def dependencies (job : Job) : List Job :=
  match job.kind with
  | .pointsTo => []
  | .copy | .taintedData => job.pointsTo
  | .valueContent => job.pointsTo ++ job.copy

/-- The job after everything that it depends on. -/
def closure (job : Job) : List Job := job.dependencies ++ [job]

/-- Everything comes after what it depends on. -/
def Ordered (l : List Job) : Prop :=
  ∀ before job after, l = before ++ job :: after → ∀ d ∈ job.dependencies, before.any (· == d) = true

theorem ordered_nil : Ordered [] := fun before job after h => by simp at h

theorem ordered_concat {l : List Job} {job : Job} :
    Ordered (l ++ [job]) ↔ Ordered l ∧ ∀ d ∈ job.dependencies, l.any (· == d) = true := by
  constructor
  · refine fun h => ⟨fun before j after hl => h before j (after ++ [job]) (by simp [hl]), h l job [] rfl⟩
  · rintro ⟨ordered, last⟩ before j after h
    cases after using List.reverseRecOn with
    | nil =>
      obtain ⟨rfl, rfl⟩ := List.append_inj' h rfl |>.imp_right fun h => List.singleton_inj.1 h
      exact last
    | append_singleton after _ =>
      rw [← List.cons_append, ← List.append_assoc] at h
      exact ordered before j after (List.append_inj' h rfl).1

theorem Ordered.append {l r : List Job} (hl : Ordered l) (hr : Ordered r) : Ordered (l ++ r) := by
  induction r using List.reverseRecOn with
  | nil => rwa [List.append_nil]
  | append_singleton r job ih =>
    obtain ⟨hr, last⟩ := ordered_concat.1 hr
    rw [← List.append_assoc]
    exact ordered_concat.2 ⟨ih hr, fun d hd => by rw [List.any_append, last d hd, Bool.or_true]⟩

theorem ordered_flatMap {α : Type} {l : List α} {f : α → List Job} (h : ∀ a ∈ l, Ordered (f a)) :
    Ordered (l.flatMap f) := by
  induction l with
  | nil => exact ordered_nil
  | cons a l ih =>
    rw [List.flatMap_cons]
    exact (h a List.mem_cons_self).append (ih fun b hb => h b (List.mem_cons_of_mem _ hb))

/-- What is left out came before. -/
theorem Ordered.eraseDups {l : List Job} (h : Ordered l) : Ordered l.eraseDups := by
  induction l using List.reverseRecOn with
  | nil => exact ordered_nil
  | append_singleton l job ih =>
    obtain ⟨hl, last⟩ := ordered_concat.1 h
    rw [eraseDups_concat]
    split
    · exact ih hl
    · exact ordered_concat.2 ⟨ih hl, fun d hd => by rw [any_eraseDups, last d hd]⟩

/-- What a job depends on has what that depends on among it. -/
theorem ordered_closure (job : Job) : Ordered job.closure := by
  have points : Ordered job.pointsTo := by
    unfold pointsTo
    split
    · exact ordered_nil
    · exact ordered_concat.2 ⟨ordered_nil, fun d hd => (List.not_mem_nil hd).elim⟩
  have self {l : List Job} {d : Job} (hd : d ∈ l) : l.any (· == d) = true := List.any_eq_true.2 ⟨d, hd, BEq.rfl⟩
  refine ordered_concat.2 ⟨?_, fun d hd => self hd⟩
  unfold dependencies
  cases job.kind with
  | pointsTo => exact ordered_nil
  | copy | taintedData => exact points
  | valueContent =>
    dsimp only
    unfold copy
    split
    · exact ordered_concat.2 ⟨points, fun d hd => self hd⟩
    · rwa [List.append_nil]

end Job

/-! ### Requests -/

/-- A request to a session. -/
inductive Ask where
  /-- An analysis of a body. -/
  | body (kind : AnalysisKind) (graph : LoadedGraph) (config : Config) (taint : TaintConfig)
  /-- An analysis of a method. -/
  | method (kind : AnalysisKind) (method : Symbol) (config : Config) (taint : TaintConfig)
  /-- An analysis of each of some methods, one after the other. -/
  | methods (kind : AnalysisKind) (methods : List Symbol) (config : Config) (taint : TaintConfig)

namespace Session

/-- The answers to a request. -/
def ask (s : Session) : Ask → StateM Desk (List (Except Failure (Option (Stored Outcome))))
  | .body kind g config taint => return [(← (s.analyze kind g config taint).run).map some]
  | .method kind method config taint => return [← (s.analyzeMethod kind method config taint).run]
  | .methods kind methods config taint => return (← s.analyzeAll kind methods config taint).map (·.2)

/-- The answers to requests, one after the other. -/
def askAll (s : Session) (l : List Ask) : StateM Desk (List (Except Failure (Option (Stored Outcome)))) :=
  return (← l.mapM s.ask).flatten

/-- The job that a request for an analysis comes to. -/
def jobOf (kind : AnalysisKind) (g : LoadedGraph) (config : Config) (taint : TaintConfig) : Job :=
  ⟨kind, g, config, if kind = .taintedData then some taint else none⟩

/-- The jobs that a request for an analysis of a method needs: none if it has no body. -/
def needsOf (s : Session) (kind : AnalysisKind) (method : Symbol) (config : Config) (taint : TaintConfig) : List Job :=
  match s.loaded? method with
  | some g => (jobOf kind g config taint).closure
  | none => []

/-- The jobs that a request needs. -/
def needs (s : Session) : Ask → List Job
  | .body kind g config taint => (jobOf kind g config taint).closure
  | .method kind method config taint => s.needsOf kind method config taint
  | .methods kind methods config taint => methods.flatMap fun method => s.needsOf kind method config taint

end Session

/-! ### What was done -/

/-- The jobs were done, each of them once, when it was first needed. -/
structure Desk.Did (l : List Job) (d : Desk) : Prop where
  /-- The computations are counted. -/
  computations : d.1.computations = l.eraseDups.length
  /-- The events are logged. -/
  events : d.2.events.reverse = l.eraseDups.flatMap Job.events
  /-- The results are on file. -/
  entries : (d.1.entries.map (·.1)).reverse = l.eraseDups.map Job.key

namespace Desk

variable {l : List Job} {d : Desk} {job : Job}

theorem did_clean : Did [] clean := ⟨rfl, rfl, rfl⟩

theorem Did.congr {l' : List Job} (did : Did l d) (h : l.eraseDups = l'.eraseDups) : Did l' d :=
  ⟨h ▸ did.computations, h ▸ did.events, h ▸ did.entries⟩

/-- A result is on file if the job was done. -/
theorem Did.isSome_find? (did : Did l d) : (d.1.find? job.key).isSome = l.any (· == job) := by
  have onFile : l.eraseDups.any (· == job) = (d.1.entries.map (·.1)).reverse.any (· == job.key) := by
    rw [did.entries, List.any_map]
    rfl
  rw [← any_eraseDups, onFile, List.any_reverse, List.any_map, Cache.find?, Option.isSome_map, List.isSome_find?]
  rfl

/-- A job whose result is on file was done. -/
theorem Did.found (did : Did l d) (h : (d.1.find? job.key).isSome = true) : Did (l ++ [job]) d := by
  rw [did.isSome_find?] at h
  exact did.congr (by rw [eraseDups_concat, if_pos h])

/-- A job whose result is not on file is done, and its result is filed. -/
theorem Did.done (did : Did l d) (h : (d.1.find? job.key).isSome = false) (o : Outcome) (cancelled : Bool) :
    Did (l ++ [job]) (d.1.begin.complete job.key o, ⟨job.events.reverse ++ d.2.events, cancelled⟩) := by
  rw [did.isSome_find?] at h
  have last : (l ++ [job]).eraseDups = l.eraseDups ++ [job] := by rw [eraseDups_concat, h]; rfl
  constructor
  · rw [last, List.length_append, ← did.computations]
    rfl
  · rw [last, List.flatMap_append, ← did.events]
    simp
  · rw [last, List.map_append, ← did.entries]
    simp [Cache.complete, Cache.begin]

end Desk

/-- A request that does not fail does some jobs. -/
def Request.Adds {α : Type} (x : Request α) (jobs : List Job) : Prop :=
  ∀ l d a d', Desk.Did l d → x.run d = (.ok a, d') → Desk.Did (l ++ jobs) d'

namespace Request.Adds

variable {α β : Type} {x : Request α} {f : α → Request β} {l r : List Job}

theorem pure (a : α) : Adds (pure a) [] := by
  rintro l d _ _ did ⟨⟩
  rwa [List.append_nil]

theorem bind (hx : Adds x l) (hf : ∀ a, Adds (f a) r) : Adds (x >>= f) (l ++ r) := by
  intro done d b d' did h
  obtain ⟨a, d₁, h₁, h₂⟩ := Visit.run_bind_eq_ok.1 h
  rw [← List.append_assoc]
  exact hf a _ _ _ _ (hx _ _ _ _ did h₁) h₂

theorem map (hx : Adds x l) (f : α → β) : Adds (x >>= fun a => Pure.pure (f a)) l := by
  have := hx.bind fun a => pure (f a)
  rwa [List.append_nil] at this

/-- What was done just before is not done again. -/
theorem again (hx : Adds x l) (hf : ∀ a, Adds (f a) (l ++ r)) : Adds (x >>= f) (l ++ r) := by
  intro done d b d' did h
  obtain ⟨a, d₁, h₁, h₂⟩ := Visit.run_bind_eq_ok.1 h
  have twice : (done ++ l ++ l).eraseDups = (done ++ l).eraseDups :=
    eraseDups_append _ _ fun a ha => List.any_eq_true.2 ⟨a, List.mem_append_right _ ha, BEq.rfl⟩
  have same := eraseDups_append_congr twice r
  have after := hf a _ _ _ _ (hx _ _ _ _ did h₁) h₂
  rw [← List.append_assoc] at after ⊢
  exact after.congr same

theorem did {jobs done : List Job} {d : Desk} (h : Adds x jobs) (did : Desk.Did done d) (ok : (x.run d).1.isOk = true) :
    Desk.Did (done ++ jobs) (x.run d).2 := by
  rcases hrun : x.run d with ⟨_ | a, d'⟩
  · rw [hrun] at ok
    cases ok
  · exact h _ _ _ _ did hrun

end Request.Adds

/-- Requests one after the other do what they need, if each of them does. -/
theorem Desk.did_mapM {α β : Type} {f : α → StateM Desk β} {needs : α → List Job} (fine : β → Prop)
    (step : ∀ a l d, Did l d → fine ((f a).run d).1 → Did (l ++ needs a) ((f a).run d).2) (qs : List α) {l : List Job}
    {d : Desk} (did : Did l d) (h : ∀ b ∈ ((qs.mapM f).run d).1, fine b) :
    Did (l ++ qs.flatMap needs) ((qs.mapM f).run d).2 := by
  induction qs generalizing l d with
  | nil => rwa [List.flatMap_nil, List.append_nil]
  | cons q qs ih =>
    rw [List.mapM_cons] at h ⊢
    have first := step q l d did (h _ List.mem_cons_self)
    have rest := ih first fun b hb => h b (List.mem_cons_of_mem _ hb)
    rwa [List.append_assoc] at rest

namespace Session

variable {s : Session}

/-- An analysis is run if its result is not there. -/
theorem compute_adds {V : Type} [DecidableEq V] (observed : s.observed = true) (view : Cache.View Outcome (Solution V))
    (A : Analysis V) (g : LoadedGraph) (config : Config) (discriminator : Option TaintConfig)
    (prepare : Context V → Context V) :
    Request.Adds (s.compute view A g config discriminator prepare) [⟨A.kind, g, config, discriminator⟩] := by
  rintro l ⟨c, j⟩ stored d' did h
  unfold compute at h
  rw [show ∀ x : Request (Stored (Solution V)), x.run (c, j) = x (c, j) from fun _ => rfl] at h
  unfold Cache.request at h
  simp only [observed, if_true, Bool.true_and] at h
  split at h
  · rename_i found
    have onFile : (c.find? (Job.key ⟨A.kind, g, config, discriminator⟩)).isSome = true :=
      Option.isSome_of_eq_some found
    split at h
    · obtain rfl := (Prod.mk.inj h).2
      exact did.found onFile
    · cases h
  · rename_i missing
    have notOnFile : (c.find? (Job.key ⟨A.kind, g, config, discriminator⟩)).isSome = false :=
      Option.isSome_eq_false_iff.2 (Option.isNone_iff_eq_none.2 missing)
    split at h
    · rename_i value j' hrun
      obtain rfl := (Prod.mk.inj h).2
      simp only [ExceptT.run] at hrun
      split at hrun
      obtain ⟨rfl, rfl⟩ := Prod.mk.inj hrun
      exact did.done notOnFile _ _
    · cases h

/-! What the analyses depend on is requested first. -/

section Dependencies

variable (observed : s.observed = true)
include observed

theorem pointsToFor_adds (job : Job) : Request.Adds (s.pointsToFor job.graph job.config) job.pointsTo := by
  unfold pointsToFor Job.pointsTo
  split
  · exact .pure _
  · exact (compute_adds observed _ _ _ _ _ _).map _

theorem copy_adds (job : Job) :
    Request.Adds (s.copy job.graph job.config) (job.pointsTo ++ [⟨.copy, job.graph, job.config, none⟩]) :=
  (pointsToFor_adds observed job).bind fun _ => compute_adds observed _ _ _ _ _ _

theorem valueContent_adds (g : LoadedGraph) (config : Config) :
    Request.Adds (s.valueContent g config) (Job.closure ⟨.valueContent, g, config, none⟩) := by
  let job : Job := ⟨.valueContent, g, config, none⟩
  have run (pointsTo : Option (Solution PointsTo)) (copies : Option (Solution CopyClass)) :=
    compute_adds observed Outcome.valueContentView Analysis.contents g config none fun ctx => { ctx with pointsTo, copies }
  unfold valueContent copyFor Job.closure Job.dependencies Job.copy
  cases config.usesCopies with
  | false =>
    simp only [Bool.not_false, if_true, pure_bind, Bool.false_eq_true, if_false, List.append_nil]
    exact (pointsToFor_adds observed job).bind fun _ => run _ _
  | true =>
    simp only [Bool.not_true, Bool.false_eq_true, if_false, if_true, List.append_assoc]
    refine (pointsToFor_adds observed job).again fun _ => ?_
    rw [← List.append_assoc]
    exact ((copy_adds observed job).map _).bind fun _ => run _ _

/-- A request for an analysis does the job and before it what it depends on. -/
theorem analyze_adds (kind : AnalysisKind) (g : LoadedGraph) (config : Config) (taint : TaintConfig) :
    Request.Adds (s.analyze kind g config taint) (jobOf kind g config taint).closure := by
  cases kind with
  | pointsTo => exact (compute_adds observed _ _ _ _ _ _).map _
  | copy => exact (copy_adds observed (jobOf .copy g config taint)).map _
  | valueContent => exact (valueContent_adds observed g config).map _
  | taintedData =>
    refine Request.Adds.map ?_ _
    exact (pointsToFor_adds observed (jobOf .taintedData g config taint)).bind fun _ => compute_adds observed _ _ _ _ _ _

theorem analyzeMethod_adds (kind : AnalysisKind) (method : Symbol) (config : Config) (taint : TaintConfig) :
    Request.Adds (s.analyzeMethod kind method config taint) (s.needsOf kind method config taint) := by
  unfold analyzeMethod needsOf
  cases s.loaded? method with
  | some g => exact (analyze_adds observed kind g config taint).map _
  | none => exact .pure _

end Dependencies

/-! ### Requests one after the other -/

section Requests

variable (observed : s.observed = true)
include observed

/-- A request that does not fail does what it needs. -/
theorem ask_adds (q : Ask) {l : List Job} {d : Desk} (did : Desk.Did l d)
    (h : ∀ r ∈ ((s.ask q).run d).1, r.isOk = true) : Desk.Did (l ++ s.needs q) ((s.ask q).run d).2 := by
  cases q with
  | body kind g config taint =>
    refine (analyze_adds observed kind g config taint).did did ?_
    have first := h _ List.mem_cons_self
    revert first
    show (Except.map some ((s.analyze kind g config taint).run d).1).isOk = true → _
    cases ((s.analyze kind g config taint).run d).1 <;> exact id
  | method kind method config taint =>
    exact (analyzeMethod_adds observed kind method config taint).did did (h _ List.mem_cons_self)
  | methods kind methods config taint =>
    refine Desk.did_mapM (fun r => r.2.isOk = true) (fun method l d did ok => ?_) methods did fun r hr =>
      h _ (List.mem_map_of_mem hr)
    exact (analyzeMethod_adds observed kind method config taint).did did ok

theorem askAll_adds (qs : List Ask) {l : List Job} {d : Desk} (did : Desk.Did l d)
    (h : ∀ r ∈ ((s.askAll qs).run d).1, r.isOk = true) :
    Desk.Did (l ++ qs.flatMap s.needs) ((s.askAll qs).run d).2 :=
  Desk.did_mapM (fun answers => ∀ r ∈ answers, r.isOk = true) (fun q _ _ did ok => ask_adds observed q did ok) qs did
    fun _ hr r hmem => h r (List.mem_flatten_of_mem hr hmem)

end Requests

/-- What a request needs has what that depends on before it. -/
theorem ordered_needs (s : Session) (q : Ask) : Job.Ordered (s.needs q) := by
  have method (kind : AnalysisKind) (method : Symbol) (config : Config) (taint : TaintConfig) :
      Job.Ordered (s.needsOf kind method config taint) := by
    unfold needsOf
    split
    · exact Job.ordered_closure _
    · exact Job.ordered_nil
  cases q with
  | body => exact Job.ordered_closure _
  | method => exact method _ _ _ _
  | methods kind methods config taint => exact Job.ordered_flatMap fun m _ => method kind m config taint

/-- If no request fails, then the computations are as many as the jobs that requests need, each counted once. The log
has the two events of each of these jobs, one job after the other, and each job after what it depends on. A method
without a body adds nothing. -/
theorem askAll_work (s : Session) (observed : s.observed = true) (qs : List Ask)
    (succeeds : ∀ r ∈ ((s.askAll qs).run Desk.clean).1, r.isOk = true) :
    let desk := ((s.askAll qs).run Desk.clean).2
    let work := (qs.flatMap s.needs).eraseDups
    desk.1.computations = work.length ∧
      desk.2.events.reverse = work.flatMap Job.events ∧
        (work.Pairwise fun a b => (a == b) = false) ∧
          (∀ job, work.any (· == job) = (qs.flatMap s.needs).any (· == job)) ∧ Job.Ordered work ∧
            ∀ kind method config taint, s.loaded? method = none → ∀ d,
              (s.analyzeMethod kind method config taint).run d = (.ok none, d) := by
  have did := askAll_adds observed qs Desk.did_clean succeeds
  have ordered : Job.Ordered (qs.flatMap s.needs) := Job.ordered_flatMap fun q _ => ordered_needs s q
  refine ⟨did.computations, did.events, pairwise_eraseDups _, any_eraseDups _, ordered.eraseDups, ?_⟩
  intro kind method config taint nobody d
  unfold analyzeMethod
  rw [nobody]
  rfl

/-! ### Requests that overlap -/

namespace Overlap

/-- A method that returns a number. -/
def graph : LoadedGraph where
  label := .body 0 (Symbol.method "C" "main" none)
  graph :=
    { owner := Symbol.method "C" "main" none
      parameters := []
      blocks :=
        [⟨⟨0⟩, .entry, [.ret ⟨⟨1⟩, none, ⟨0, 0⟩⟩ (some (.literal ⟨⟨0⟩, none, ⟨0, 0⟩⟩ (.integer 7)))], none,
            [⟨⟨1⟩, .regular⟩], []⟩,
          ⟨⟨1⟩, .exit, [], none, [], []⟩] }

/-- Its session. -/
def session : Session where
  provider := some fun method => if method = graph.graph.owner then some graph else none
  types := KnownTypes.ofList []
  observed := true

/-- Copies are used. -/
def config : Config := { Config.usual with usesCopies := true }

/-- The copies of the body, what it returns, and what a method without a body does. -/
def asks : List Ask :=
  [.body .copy graph config ⟨[], [], []⟩, .method .valueContent graph.graph.owner config ⟨[], [], []⟩,
    .methods .pointsTo [Symbol.method "C" "other" none, graph.graph.owner] config ⟨[], [], []⟩]

end Overlap

open Overlap in
/-- Four requests come to three computations. -/
theorem askAll_work_overlap :
    let desk := ((session.askAll asks).run Desk.clean).2
    desk.1.computations = 3 ∧ desk.2.events.reverse =
      [.started .pointsTo graph.graph.owner, .completed .pointsTo graph.graph.owner, .started .copy graph.graph.owner,
        .completed .copy graph.graph.owner, .started .valueContent graph.graph.owner,
          .completed .valueContent graph.graph.owner] := by
  have succeeds : ∀ r ∈ ((session.askAll asks).run Desk.clean).1, r.isOk = true := by decide +kernel
  obtain ⟨computations, events, -⟩ := askAll_work session rfl asks succeeds
  exact ⟨computations.trans (by decide +kernel), events.trans (by decide +kernel)⟩

end Session

end Dataflow
