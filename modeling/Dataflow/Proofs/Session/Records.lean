import Dataflow.Proofs.Contents.Soundness
import Dataflow.Proofs.Session.Keys
import Dataflow.Proofs.Visit.Ensures
import Dataflow.Session.Basic

/-!
# Records of results

A session answers a request from its cache if it can. So what is said of answers has to be said of all results on file.
It may be said by their keys.

## The notions

* `Record`: what is said of a result that is on file for a key.
* `Record.Kept`: a request leaves only results on file of which it is true.
* `Record.Admits`: it is true of whatever runs over a body find out, given that it is true of the solutions that they use.
* `Desk.Reached`: requests lead to the desk.

## What is proved

If that is so then every request for an analysis of the body keeps the record, also if it fails on the way
(`Session.analyze_kept`). So a record that admits whatever runs find out is true of all results on each desk that requests
lead to (`Desk.Reached.holds`), and every result on file for a body was computed for that body (`Desk.Reached.files`).
-/

namespace Dataflow

/-- What is said of a result that is on file for a key. -/
abbrev Record := CacheKey (Option TaintConfig) → Outcome → Prop

namespace Record

variable (P : Record)

/-- It is true of all results on file. -/
def Holds (c : ResultCache) : Prop := ∀ e ∈ c.entries, P e.1 e.2.value

/-- The same is said for keys that are taken for equal. -/
def Respects : Prop := ∀ key key' o, (key == key') = true → P key o → P key' o

/-- It stays true of all results on file, and an answer has the property `Q`. -/
def Kept {α : Type} (x : Request α) (Q : α → Prop) : Prop :=
  ∀ d : Desk, P.Holds d.1 → P.Holds (x.run d).2.1 ∧ ∀ a, (x.run d).1 = .ok a → Q a

namespace Kept

variable {P} {α β : Type} {x : Request α} {Q : α → Prop} {R : β → Prop}

theorem pure {a : α} (h : Q a) : P.Kept (pure a) Q := by
  intro d holds
  refine ⟨holds, fun b hb => ?_⟩
  cases hb
  exact h

theorem bind {f : α → Request β} (h : P.Kept x Q) (h' : ∀ a, Q a → P.Kept (f a) R) : P.Kept (x >>= f) R := by
  intro d holds
  obtain ⟨holds', hx⟩ := h d holds
  rw [Visit.run_bind]
  cases hr : x.run d with
  | mk r d' =>
    rw [hr] at holds' hx
    cases r with
    | error e => exact ⟨holds', fun b hb => by cases hb⟩
    | ok a => exact h' a (hx a rfl) d' holds'

theorem mono (h : P.Kept x Q) {Q' : α → Prop} (hQ : ∀ a, Q a → Q' a) : P.Kept x Q' :=
  fun d holds => ⟨(h d holds).1, fun a ha => hQ a ((h d holds).2 a ha)⟩

/-- A result is answered from the files, or computed and put there. -/
theorem request (respects : P.Respects) {view : Cache.View Outcome β} {key : CacheKey (Option TaintConfig)}
    {compute : ExceptT Failure (StateM Journal) β} (read : ∀ o b, view.read o = some b → o = view.write b)
    (computed : ∀ b, (∃ j j', compute.run j = (.ok b, j')) → P key (view.write b)) :
    P.Kept (Cache.request view .mistyped key compute) fun stored => P key (view.write stored.value) := by
  rintro ⟨c, j⟩ holds
  show P.Holds (Cache.request view Failure.mistyped key compute (c, j)).2.1 ∧
    ∀ a, (Cache.request view Failure.mistyped key compute (c, j)).1 = .ok a → _
  unfold Cache.request
  dsimp only
  cases hfind : c.find? key with
  | some stored =>
    obtain ⟨e, he, rfl⟩ := Option.map_eq_some_iff.1 hfind
    have hkey := List.find?_some he
    have right := respects _ _ _ hkey (holds e (List.mem_of_find?_eq_some he))
    dsimp only
    cases hread : view.read e.2.value with
    | none => exact ⟨holds, fun a ha => by cases ha⟩
    | some b =>
      refine ⟨holds, fun a ha => ?_⟩
      obtain rfl := Except.ok.inj ha
      rwa [← read _ _ hread]
  | none =>
    dsimp only
    split
    · rename_i b j' hrun
      have right := computed b ⟨_, _, hrun⟩
      refine ⟨fun e he => ?_, fun a ha => ?_⟩
      · rcases List.mem_cons.1 he with rfl | he
        · exact right
        · exact holds e he
      · obtain rfl := Except.ok.inj ha
        exact right
    · exact ⟨holds, fun a ha => by cases ha⟩

end Kept

end Record

/-! ### Runs -/

/-- A run over a body, with the solutions that it uses, comes to a solution. -/
def Session.Finds (s : Session) (g : LoadedGraph) (config : Config) {V : Type} [DecidableEq V] (A : Analysis V)
    (pointsTo : Option (Solution PointsTo)) (copies : Option (Solution CopyClass)) (sol : Solution V) : Prop :=
  ∃ ledger ledger',
    (A.solve { Context.start g.graph config s.bodies with pointsTo, copies }).run ledger = (.ok sol, ledger')

namespace Record

variable (P : Record) (g : LoadedGraph) (config : Config)

/-- The points-to solution that a run uses: none if the configuration does without, or else one that may be on file. -/
def AllowsPointsTo : Option (Solution PointsTo) → Prop
  | none => config.pointsToUse = .none
  | some sol => config.pointsToUse ≠ .none ∧ P ⟨.pointsTo, g.label, config, none⟩ (.pointsTo sol)

/-- The copies that a run uses: none if the configuration does without, or else a solution that may be on file. -/
def AllowsCopies : Option (Solution CopyClass) → Prop
  | none => config.usesCopies = false
  | some sol => config.usesCopies = true ∧ P ⟨.copy, g.label, config, none⟩ (.copy sol)

/-- It is true of whatever runs over a body find out, given that it is true of the solutions that they use. -/
structure Admits (s : Session) : Prop where
  /-- References. -/
  pointsTo : ∀ sol, s.Finds g config Analysis.pointsTo none none sol →
    P ⟨.pointsTo, g.label, config, none⟩ (.pointsTo sol)
  /-- Copies. -/
  copy : ∀ used sol, P.AllowsPointsTo g config used → s.Finds g config Analysis.copies used none sol →
    P ⟨.copy, g.label, config, none⟩ (.copy sol)
  /-- Literal content. -/
  valueContent : ∀ used copies sol, P.AllowsPointsTo g config used → P.AllowsCopies g config copies →
    s.Finds g config Analysis.contents used copies sol → P ⟨.valueContent, g.label, config, none⟩ (.valueContent sol)
  /-- Untrusted data. -/
  taintedData : ∀ taint used sol, P.AllowsPointsTo g config used →
    s.Finds g config (Analysis.taint (TaintRules.ofConfig s.types taint)) used none sol →
      P ⟨.taintedData, g.label, config, some taint⟩ (.taintedData sol)

end Record

/-! ### Requests -/

namespace Session

variable {P : Record} {s : Session} {g : LoadedGraph} {config : Config} (respects : P.Respects)
include respects

/-- A run that an analysis is requested for. -/
theorem compute_kept {V : Type} [DecidableEq V] {view : Cache.View Outcome (Solution V)} {A : Analysis V}
    {discriminator : Option TaintConfig} {prepare : Context V → Context V} {pointsTo : Option (Solution PointsTo)}
    {copies : Option (Solution CopyClass)} (read : ∀ o b, view.read o = some b → o = view.write b)
    (prepared : prepare (Context.start g.graph config s.bodies) =
      { Context.start g.graph config s.bodies with pointsTo, copies })
    (found : ∀ sol, s.Finds g config A pointsTo copies sol →
      P ⟨A.kind, g.label, config, discriminator⟩ (view.write sol)) :
    P.Kept (s.compute view A g config discriminator prepare) fun stored =>
      P ⟨A.kind, g.label, config, discriminator⟩ (view.write stored.value) := by
  refine .request respects read fun sol hrun => found sol ?_
  obtain ⟨j, j', hrun⟩ := hrun
  obtain ⟨hsol, -⟩ := Prod.mk.inj hrun
  rw [prepared] at hsol
  exact ⟨_, _, Prod.ext hsol rfl⟩

variable (admits : P.Admits g config s)
include admits

theorem pointsTo_kept :
    P.Kept (s.pointsTo g config) fun stored => P ⟨.pointsTo, g.label, config, none⟩ (.pointsTo stored.value) := by
  refine compute_kept respects (fun o sol ho => ?_) rfl admits.pointsTo
  cases o with
  | pointsTo _ => exact congrArg _ (Option.some.inj ho)
  | _ => cases ho

theorem pointsToFor_kept : P.Kept (s.pointsToFor g config) (P.AllowsPointsTo g config) := by
  unfold pointsToFor
  split
  · exact .pure ‹_›
  · rename_i used
    exact (pointsTo_kept respects admits).bind fun _ h => .pure ⟨used, h⟩

theorem copy_kept : P.Kept (s.copy g config) fun stored => P ⟨.copy, g.label, config, none⟩ (.copy stored.value) := by
  refine (pointsToFor_kept respects admits).bind fun used hused => ?_
  refine compute_kept respects (fun o sol ho => ?_) rfl fun sol => admits.copy used sol hused
  cases o with
  | copy _ => exact congrArg _ (Option.some.inj ho)
  | _ => cases ho

theorem copyFor_kept : P.Kept (s.copyFor g config) (P.AllowsCopies g config) := by
  unfold copyFor
  split
  · rename_i h
    rw [Bool.not_eq_true'] at h
    exact .pure h
  · rename_i used
    rw [Bool.not_eq_true', Bool.not_eq_false] at used
    exact (copy_kept respects admits).bind fun _ h => .pure ⟨used, h⟩

theorem valueContent_kept : P.Kept (s.valueContent g config) fun stored =>
    P ⟨.valueContent, g.label, config, none⟩ (.valueContent stored.value) := by
  refine (pointsToFor_kept respects admits).bind fun used hused => ?_
  refine (copyFor_kept respects admits).bind fun copies hcopies => ?_
  refine compute_kept respects (fun o sol ho => ?_) rfl fun sol => admits.valueContent used copies sol hused hcopies
  cases o with
  | valueContent _ => exact congrArg _ (Option.some.inj ho)
  | _ => cases ho

theorem taintedData_kept {taint : TaintConfig} : P.Kept (s.taintedData g config taint) fun stored =>
    P ⟨.taintedData, g.label, config, some taint⟩ (.taintedData stored.value) := by
  refine (pointsToFor_kept respects admits).bind fun used hused => ?_
  refine compute_kept respects (fun o sol ho => ?_) rfl fun sol => admits.taintedData taint used sol hused
  cases o with
  | taintedData _ => exact congrArg _ (Option.some.inj ho)
  | _ => cases ho

/-- Whatever is requested, the record is kept. -/
theorem analyze_kept {kind : AnalysisKind} {taint : TaintConfig} :
    P.Kept (s.analyze kind g config taint) fun _ => True := by
  unfold analyze
  cases kind with
  | pointsTo => exact (pointsTo_kept respects admits).bind fun _ _ => .pure trivial
  | copy => exact (copy_kept respects admits).bind fun _ _ => .pure trivial
  | valueContent => exact (valueContent_kept respects admits).bind fun _ _ => .pure trivial
  | taintedData => exact (taintedData_kept respects admits).bind fun _ _ => .pure trivial

end Session

/-! ### Results -/

/-- The solution is what the analysis of literal content finds out about a body whose caller is not
known, without following calls, and with the copies of that body if with any. -/
def Analysis.IsContentsOf (g : Graph) (sol : Solution Content) : Prop :=
  ∃ (ctx : Context Content) (ledger ledger' : Ledger Content), ctx.graph = g ∧
    ctx.config.calls.handling = .none ∧ ctx.entry = none ∧
      (∀ used, ctx.copies = some used → IsCopiesOf g used) ∧ (contents.solve ctx).run ledger = (.ok sol, ledger')

/-- The result was computed for the body. Of the analyses that use no other one nothing is said. -/
def Outcome.IsOf (g : Graph) : Outcome → Prop
  | .copy sol => Analysis.IsCopiesOf g sol
  | .valueContent sol => Analysis.IsContentsOf g sol
  | .pointsTo _ | .taintedData _ => True

/-- What is on file for a body was computed for it, as far as calls are not followed. -/
def ResultCache.Files (g : LoadedGraph) (c : ResultCache) : Prop :=
  ∀ e ∈ c.entries, e.1.graph = g.label → e.1.config.calls.handling = .none → e.2.value.IsOf g.graph

/-! ### Requests -/

/-- What is on file for the body stays right, and an answer has the property `Q`. -/
def Request.Keeps {α : Type} (g : LoadedGraph) (x : Request α) (Q : α → Prop) : Prop :=
  ∀ d : Desk, ResultCache.Files g d.1 →
    ResultCache.Files g (x.run d).2.1 ∧ ∀ a, (x.run d).1 = .ok a → Q a

namespace Outcome

/-- What is on file for the body was computed for it. -/
def recordOf (g : LoadedGraph) : Record :=
  fun key o => key.graph = g.label → key.config.calls.handling = .none → o.IsOf g.graph

theorem recordOf_respects (g : LoadedGraph) : (recordOf g).Respects := by
  intro key key' o hkey h hgraph hnone
  obtain ⟨-, graph, config, -⟩ := CacheKey.beq_iff.1 hkey
  exact h (graph.trans hgraph) (by rw [(Config.beq_iff.1 config).1]; exact hnone)

/-- Runs over the body find out something about it. -/
theorem recordOf_admits {g h : LoadedGraph} (same : h.label = g.label → h.graph = g.graph) (config : Config)
    (s : Session) : (recordOf g).Admits h config s where
  pointsTo := fun _ _ _ _ => trivial
  copy := by
    rintro used sol - ⟨ledger, ledger', hrun⟩ hlabel hnone
    exact ⟨_, ledger, ledger', same hlabel, hnone, rfl, hrun⟩
  valueContent := by
    rintro used copies sol - hcopies ⟨ledger, ledger', hrun⟩ hlabel hnone
    refine ⟨_, ledger, ledger', same hlabel, hnone, rfl, ?_, hrun⟩
    rintro found rfl
    exact hcopies.2 hlabel hnone
  taintedData := fun _ _ _ _ _ _ _ => trivial

end Outcome

/-- The literal content that is answered for the body is that of the body. -/
theorem Session.valueContent_keeps {s : Session} {g h : LoadedGraph} {config : Config}
    (same : h.label = g.label → h.graph = g.graph) : Request.Keeps g (s.valueContent h config) fun stored =>
      h.label = g.label → config.calls.handling = .none → Analysis.IsContentsOf g.graph stored.value :=
  valueContent_kept (Outcome.recordOf_respects g) (Outcome.recordOf_admits same config s)

/-! ### Histories -/

/-- Requests lead to the desk. A label that a body has no other body has. -/
inductive Desk.Reached (g : LoadedGraph) : Desk → Prop where
  /-- There was no request yet. -/
  | clean : Reached g Desk.clean
  /-- Any analysis of any body is requested, whether it succeeds or not. -/
  | analyze {d : Desk} (s : Session) (kind : AnalysisKind) (h : LoadedGraph) (config : Config) (taint : TaintConfig) :
      Reached g d → (h.label = g.label → h.graph = g.graph) → Reached g ((s.analyze kind h config taint).run d).2
  /-- All work is cancelled. -/
  | cancel {d : Desk} : Reached g d → Reached g (Session.cancel.run d).2
  /-- All results are forgotten. -/
  | clear {d : Desk} : Reached g d → Reached g (Session.clear.run d).2

/-- In every history a record is kept that admits whatever runs find out. -/
theorem Desk.Reached.holds {P : Record} {g : LoadedGraph} {d : Desk} (respects : P.Respects)
    (admits : ∀ s h config, (h.label = g.label → h.graph = g.graph) → P.Admits h config s) (h : Desk.Reached g d) :
    P.Holds d.1 := by
  induction h with
  | clean => exact fun e he => by cases he
  | analyze s kind h config taint _ same ih => exact (Session.analyze_kept respects (admits s h config same) _ ih).1
  | cancel _ ih => exact ih
  | clear _ _ => exact fun e he => by cases he

/-- In every history what is on file for a body was computed for it. -/
theorem Desk.Reached.files {g : LoadedGraph} {d : Desk} (h : Desk.Reached g d) : ResultCache.Files g d.1 :=
  h.holds (Outcome.recordOf_respects g) fun s _ config same => Outcome.recordOf_admits same config s

end Dataflow
