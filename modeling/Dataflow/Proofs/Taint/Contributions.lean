import Dataflow.Taint.Hits
import Mathlib.Data.List.Induction

/-!
# What a log of hits is made of

A log is made step by step: a call site records a hit, or absorbs the hits of the log of a callee, which was made in the same
way, or withdraws what it has found so far. The log keeps a map by call site of maps by key, and flattens it whenever it is
asked for its hits or absorbed. All that matters in the end are the contributions: the hits that a call site has recorded or
absorbed and has not withdrawn since.

## The notions

* `HitLog.Step`, `HitLog.after`: the steps, and the log that they make.
* `HitLog.Contributed`: a hit was contributed to a call site, and is not withdrawn.
* `SinkHit.Gathers`, `HitSet.Gathers`, `HitLog.Gathers`: a hit, a set or a log is made of some contributions, whatever
  their order and however often they come.
* `HitLog.Knows`: a call site has found a hit already, with all its sources.
* `HitLog.Reports`: the hits of a log are what one reads off some contributions.

## What is proved

Adding a hit to a set adds its contributions (`HitSet.Gathers.add`); so a log is made of what was contributed to it
(`HitLog.gathers_after`), and it reports that (`HitLog.Gathers.reports`). If contributions that are known alike are of the same
sink at the same place, they determine the log (`HitLog.Gathers.eq`). What is absorbed is known, so it makes no difference the
second time (`HitLog.absorb_absorb`). All of it is put together in `HitLog.after_reports`.
-/

namespace Dataflow

/-! ### Hits that gather others -/

/-- A hit is made of those among some hits that are known like it. -/
structure SinkHit.Gathers (P : SinkHit → Prop) (h : SinkHit) : Prop where
  /-- Its sink and its place are those of one of them. -/
  exists_same : ∃ x, P x ∧ x.key = h.key ∧ x.sink = h.sink ∧ x.location = h.location
  /-- Its sources are those of all of them. -/
  mem_sources : ∀ a, a ∈ h.sources ↔ ∃ x, P x ∧ x.key = h.key ∧ a ∈ x.sources

/-- A set of hits is made of some hits. -/
structure HitSet.Gathers (P : SinkHit → Prop) (s : HitSet) : Prop where
  /-- Each hit is under its key, and made of those that are known like it. -/
  hits : ∀ k h, s.find? k = some h → h.key = k ∧ h.Gathers P
  /-- None of them is missing. -/
  exists_hit : ∀ x, P x → ∃ h, s.find? x.key = some h

variable {P Q : SinkHit → Prop} {h h' : SinkHit} {s t : HitSet}

theorem SinkHit.gathers_self (h : SinkHit) : h.Gathers (· = h) :=
  ⟨⟨h, rfl, rfl, rfl, rfl⟩, fun _ => ⟨fun ha => ⟨h, rfl, rfl, ha⟩, fun ⟨_, same, _, ha⟩ => same ▸ ha⟩⟩

/-- Hits that are known otherwise do not matter. -/
theorem SinkHit.Gathers.congr (hP : h.Gathers P) (hPQ : ∀ x, x.key = h.key → (P x ↔ Q x)) : h.Gathers Q := by
  obtain ⟨⟨x, hx, hkey, same⟩, sources⟩ := hP
  refine ⟨⟨x, (hPQ x hkey).1 hx, hkey, same⟩, fun a => (sources a).trans ?_⟩
  exact exists_congr fun y => ⟨fun ⟨hy, hk, ha⟩ => ⟨(hPQ y hk).1 hy, hk, ha⟩, fun ⟨hy, hk, ha⟩ => ⟨(hPQ y hk).2 hy, hk, ha⟩⟩

/-- If a hit takes over the sources of another one that is known like it, then it is made of what either is made of. -/
theorem SinkHit.Gathers.union (hh : h.Gathers P) (hh' : h'.Gathers Q) (same : h.key = h'.key) :
    SinkHit.Gathers (fun x => P x ∨ Q x ∧ x.key = h'.key) { h with sources := h.sources.union h'.sources } := by
  have key : ({ h with sources := h.sources.union h'.sources } : SinkHit).key = h.key := rfl
  obtain ⟨x, hx, hkey, rest⟩ := hh.exists_same
  refine ⟨⟨x, .inl hx, hkey, rest⟩, fun a => ?_⟩
  rw [FinSet.mem_union, hh.mem_sources, hh'.mem_sources, key, same]
  constructor
  · rintro (⟨y, hy, hk, ha⟩ | ⟨y, hy, hk, ha⟩)
    · exact ⟨y, .inl hy, hk, ha⟩
    · exact ⟨y, .inr ⟨hy, hk⟩, hk, ha⟩
  · rintro ⟨y, hy | ⟨hy, -⟩, hk, ha⟩
    · exact .inl ⟨y, hy, hk, ha⟩
    · exact .inr ⟨y, hy, hk, ha⟩

/-- Hits that are known alike agree on the rest but for the sources. -/
def AgreeByKey (P : SinkHit → Prop) : Prop :=
  ∀ x y, P x → P y → x.key = y.key → x.sink = y.sink ∧ x.location = y.location

/-- A hit is determined by what it is made of. -/
theorem SinkHit.Gathers.eq (agree : AgreeByKey P) (hh : h.Gathers P) (hh' : h'.Gathers P) (same : h.key = h'.key) :
    h = h' := by
  obtain ⟨x, hx, hkey, hsink, hlocation⟩ := hh.exists_same
  obtain ⟨y, hy, hkey', hsink', hlocation'⟩ := hh'.exists_same
  obtain ⟨sinks, locations⟩ := agree x y hx hy (hkey.trans (same.trans hkey'.symm))
  have sources : h.sources = h'.sources := FinSet.ext fun a => by rw [hh.mem_sources, hh'.mem_sources, same]
  rw [hsink, hsink'] at sinks
  rw [hlocation, hlocation'] at locations
  cases h
  cases h'
  simp only [SinkHit.key, Prod.mk.injEq] at same sinks locations sources
  simp only [same, sinks, locations, sources]

namespace HitSet

/-- What is added to a set has the sources of the hit, and those that were there. -/
theorem exists_add (s : HitSet) (h : SinkHit) : ∃ new, s.add h = s.insert h.key new ∧
    ∀ a, a ∈ h.sources ∨ (∃ old, s.find? h.key = some old ∧ a ∈ old.sources) → a ∈ new.sources := by
  unfold HitSet.add
  cases hold : s.find? h.key with
  | none => exact ⟨h, rfl, fun a ha => ha.resolve_right (by simp)⟩
  | some old => exact ⟨_, rfl, fun a ha => by simpa [or_comm] using ha⟩

theorem gathers_empty : Gathers (fun _ => False) FinMap.empty :=
  ⟨fun k h hk => by simp at hk, fun _ hx => hx.elim⟩

namespace Gathers

theorem congr (hs : s.Gathers P) (hPQ : ∀ x, P x ↔ Q x) : s.Gathers Q :=
  ⟨fun k h hk => ⟨(hs.hits k h hk).1, (hs.hits k h hk).2.congr fun x _ => hPQ x⟩, fun x hx => hs.exists_hit x ((hPQ x).2 hx)⟩

/-- A set is determined by what it is made of. -/
theorem eq (agree : AgreeByKey P) (hs : s.Gathers P) (ht : t.Gathers P) : s = t := by
  have found {s t : HitSet} (hs : s.Gathers P) (ht : t.Gathers P) {k : HitKey} {h : SinkHit} (hk : s.find? k = some h) :
      t.find? k = some h := by
    obtain ⟨rfl, gathers⟩ := hs.hits k h hk
    obtain ⟨x, hx, hkey, -⟩ := gathers.exists_same
    obtain ⟨h', hk'⟩ := ht.exists_hit x hx
    rw [hkey] at hk'
    obtain ⟨same, gathers'⟩ := ht.hits _ h' hk'
    rw [hk', gathers'.eq agree gathers same]
  exact FinMap.ext fun k => Option.ext fun h => ⟨found hs ht, found ht hs⟩

/-- A hit is added with what it is made of. -/
theorem add (hs : s.Gathers P) (hh : h.Gathers Q) : (s.add h).Gathers fun x => P x ∨ Q x ∧ x.key = h.key := by
  obtain ⟨new, hadd, hkey, hnew⟩ : ∃ new, s.add h = s.insert h.key new ∧ new.key = h.key ∧
      new.Gathers fun x => P x ∨ Q x ∧ x.key = h.key := by
    unfold HitSet.add
    cases hold : s.find? h.key with
    | none =>
      refine ⟨h, rfl, rfl, hh.congr fun x hx => ⟨fun hq => .inr ⟨hq, hx⟩, fun hpq => hpq.elim (fun hp => ?_) (·.1)⟩⟩
      obtain ⟨old, hold'⟩ := hs.exists_hit x hp
      rw [hx, hold] at hold'
      cases hold'
    | some old =>
      obtain ⟨hkey, gathers⟩ := hs.hits _ old hold
      exact ⟨_, rfl, hkey, gathers.union hh hkey⟩
  rw [hadd]
  refine ⟨fun k h' hk => ?_, fun x hx => ?_⟩
  · by_cases same : k = h.key
    · subst same
      rw [FinMap.find?_insert_self, Option.some.injEq] at hk
      exact hk ▸ ⟨hkey, hnew⟩
    · rw [FinMap.find?_insert_ne _ _ same] at hk
      obtain ⟨rfl, gathers⟩ := hs.hits k h' hk
      exact ⟨rfl, gathers.congr fun x hx => ⟨.inl, fun hpq => hpq.elim id fun hq => absurd (hx.symm.trans hq.2) same⟩⟩
  · by_cases same : x.key = h.key
    · rw [same]
      exact ⟨new, FinMap.find?_insert_self _ _ _⟩
    · rw [FinMap.find?_insert_ne _ _ same]
      exact hs.exists_hit x (hx.resolve_right fun hq => same hq.2)

/-- Hits are added with what they are made of. -/
theorem addAll {l : List SinkHit} (hs : s.Gathers P) (hl : ∀ h ∈ l, h.Gathers Q) :
    (l.foldl HitSet.add s).Gathers fun x => P x ∨ Q x ∧ ∃ h ∈ l, h.key = x.key := by
  induction l generalizing s P with
  | nil => exact hs.congr fun x => by simp
  | cons h l ih =>
    rw [List.foldl_cons]
    refine (ih (hs.add (hl h List.mem_cons_self)) fun h' hh' => hl h' (List.mem_cons_of_mem _ hh')).congr fun x => ?_
    simp only [List.mem_cons, exists_eq_or_imp, and_or_left, or_assoc, eq_comm (a := x.key)]

theorem of_mem_values (hs : s.Gathers P) (hh : h ∈ s.values) : s.find? h.key = some h ∧ h.Gathers P := by
  obtain ⟨⟨k, h⟩, hentry, rfl⟩ := List.mem_map.1 hh
  have hk := FinMap.mem_entries.1 hentry
  obtain ⟨rfl, gathers⟩ := hs.hits k h hk
  exact ⟨hk, gathers⟩

theorem exists_mem_values (hs : s.Gathers P) {x : SinkHit} (hx : P x) : ∃ h ∈ s.values, h.key = x.key := by
  obtain ⟨h, hk⟩ := hs.exists_hit x hx
  exact ⟨h, List.mem_map.2 ⟨(x.key, h), FinMap.mem_entries.2 hk, rfl⟩, (hs.hits _ h hk).1⟩

/-- The keys of the hits are those that they are under. -/
theorem nodup_keys (hs : s.Gathers P) : (s.values.map SinkHit.key).Nodup := by
  have keys : s.values.map SinkHit.key = s.keys.toList := by
    rw [FinMap.values, List.map_map]
    exact List.map_congr_left fun ⟨k, h⟩ hentry => (hs.hits k h (FinMap.mem_entries.1 hentry)).1
  rw [keys]
  exact s.keys.nodup_toList

/-- The hits of a set are added to another one. -/
theorem union (hs : s.Gathers P) (ht : t.Gathers Q) : (t.values.foldl HitSet.add s).Gathers fun x => P x ∨ Q x :=
  (hs.addAll fun _ hh => (ht.of_mem_values hh).2).congr fun _ =>
    or_congr_right ⟨fun hx => hx.1, fun hx => ⟨hx, ht.exists_mem_values hx⟩⟩

end Gathers

end HitSet

/-! ### Logs that gather contributions -/

namespace HitLog

/-- A log is made of what was contributed to each call site. -/
structure Gathers (P : OperationId → SinkHit → Prop) (log : HitLog) : Prop where
  /-- The hits of a call site, of which there are some. -/
  sites : ∀ i s, log.sites.find? i = some s → s.Gathers (P i) ∧ ∃ x, P i x
  /-- No call site is missing. -/
  exists_site : ∀ i x, P i x → ∃ s, log.sites.find? i = some s

variable {P R : OperationId → SinkHit → Prop} {log log' : HitLog} {site : OperationId}

theorem gathers_empty : empty.Gathers fun _ _ => False :=
  ⟨fun i s hs => by simp [empty] at hs, fun _ _ hx => hx.elim⟩

namespace Gathers

theorem congr (hl : log.Gathers P) (hPR : ∀ i x, P i x ↔ R i x) : log.Gathers R := by
  refine ⟨fun i s hs => ?_, fun i x hx => hl.exists_site i x ((hPR i x).2 hx)⟩
  obtain ⟨gathers, x, hx⟩ := hl.sites i s hs
  exact ⟨gathers.congr (hPR i), x, (hPR i x).1 hx⟩

/-- What a call site has found. -/
theorem atSite (hl : log.Gathers P) (i : OperationId) : HitSet.Gathers (P i) ((log.sites.find? i).getD FinMap.empty) := by
  cases hs : log.sites.find? i with
  | some s => exact (hl.sites i s hs).1
  | none =>
    refine HitSet.gathers_empty.congr fun x => ⟨False.elim, fun hx => ?_⟩
    obtain ⟨s, hs'⟩ := hl.exists_site i x hx
    rw [hs] at hs'
    cases hs'

/-- A log is determined by what it is made of. -/
theorem eq (agree : ∀ i, AgreeByKey (P i)) (hl : log.Gathers P) (hl' : log'.Gathers P) : log = log' := by
  have found {log log' : HitLog} (hl : log.Gathers P) (hl' : log'.Gathers P) {i : OperationId} {s : HitSet}
      (hs : log.sites.find? i = some s) : log'.sites.find? i = some s := by
    obtain ⟨gathers, x, hx⟩ := hl.sites i s hs
    obtain ⟨s', hs'⟩ := hl'.exists_site i x hx
    rw [hs', (hl'.sites i s' hs').1.eq (agree i) gathers]
  exact congrArg HitLog.mk (FinMap.ext fun i => Option.ext fun s => ⟨found hl hl', found hl' hl⟩)

theorem record (hl : log.Gathers P) (hh : h.Gathers Q) :
    (log.record site h).Gathers fun i x => P i x ∨ i = site ∧ Q x ∧ x.key = h.key := by
  refine ⟨fun i s hs => ?_, fun i x hx => ?_⟩
  · by_cases same : i = site
    · subst same
      rw [HitLog.record, FinMap.find?_insert_self, Option.some.injEq] at hs
      obtain ⟨x, hx, hkey, -⟩ := hh.exists_same
      exact ⟨hs ▸ ((hl.atSite i).add hh).congr fun x => by simp, x, .inr ⟨rfl, hx, hkey⟩⟩
    · rw [HitLog.record, FinMap.find?_insert_ne _ _ same] at hs
      obtain ⟨gathers, x, hx⟩ := hl.sites i s hs
      exact ⟨gathers.congr fun x => by simp [same], x, .inl hx⟩
  · by_cases same : i = site
    · rw [same]
      exact ⟨_, FinMap.find?_insert_self _ _ _⟩
    · rw [HitLog.record, FinMap.find?_insert_ne _ _ same]
      exact hl.exists_site i x (hx.resolve_right fun new => same new.1)

theorem recordAll {l : List SinkHit} (hlog : log.Gathers P) (hl : ∀ h ∈ l, h.Gathers Q) :
    (l.foldl (fun log h => log.record site h) log).Gathers fun i x =>
      P i x ∨ i = site ∧ Q x ∧ ∃ h ∈ l, h.key = x.key := by
  induction l generalizing log P with
  | nil => exact hlog.congr fun i x => by simp
  | cons h l ih =>
    rw [List.foldl_cons]
    refine (ih (hlog.record (hl h List.mem_cons_self)) fun h' hh' => hl h' (List.mem_cons_of_mem _ hh')).congr fun i x => ?_
    simp only [List.mem_cons, exists_eq_or_imp, and_or_left, or_assoc, eq_comm (a := x.key)]

/-- All hits together are made of what was contributed to any call site. -/
theorem merged (hl : log.Gathers P) : log.merged.Gathers fun x => ∃ i, P i x := by
  have union (l : List (OperationId × HitSet)) (hsets : ∀ e ∈ l, e.2.Gathers (P e.1)) {s : HitSet} {Q : SinkHit → Prop}
      (hs : s.Gathers Q) : (((l.map Prod.snd).flatMap (·.values)).foldl HitSet.add s).Gathers fun x =>
        Q x ∨ ∃ e ∈ l, P e.1 x := by
    induction l generalizing s Q with
    | nil => exact hs.congr fun x => by simp
    | cons e l ih =>
      rw [List.map_cons, List.flatMap_cons, List.foldl_append]
      refine (ih (fun e' he' => hsets e' (List.mem_cons_of_mem _ he')) (hs.union (hsets e List.mem_cons_self))).congr fun x => ?_
      simp only [List.mem_cons, exists_eq_or_imp, or_assoc]
  refine (union log.sites.entries (fun e he => (hl.sites _ _ (FinMap.mem_entries.1 he)).1) HitSet.gathers_empty).congr fun x => ?_
  rw [false_or]
  constructor
  · exact fun ⟨e, _, hx⟩ => ⟨e.1, hx⟩
  · rintro ⟨i, hx⟩
    obtain ⟨s, hs⟩ := hl.exists_site i x hx
    exact ⟨(i, s), FinMap.mem_entries.2 hs, hx⟩

theorem absorb (hl : log.Gathers P) (hl' : log'.Gathers R) :
    (log.absorb site log').Gathers fun i x => P i x ∨ i = site ∧ ∃ j, R j x :=
  (hl.recordAll fun _ hh => (hl'.merged.of_mem_values hh).2).congr fun _ _ =>
    or_congr_right (and_congr_right fun _ => ⟨fun hx => hx.1, fun hx => ⟨hx, hl'.merged.exists_mem_values hx⟩⟩)

theorem withdraw (hl : log.Gathers P) : (log.withdraw site).Gathers fun i x => i ≠ site ∧ P i x := by
  refine ⟨fun i s hs => ?_, fun i x ⟨other, hx⟩ => ?_⟩
  · by_cases same : i = site
    · rw [same, HitLog.withdraw, FinMap.find?_erase_self] at hs
      cases hs
    · rw [HitLog.withdraw, FinMap.find?_erase_ne _ same] at hs
      obtain ⟨gathers, x, hx⟩ := hl.sites i s hs
      exact ⟨gathers.congr fun x => by simp [same], x, same, hx⟩
  · rw [HitLog.withdraw, FinMap.find?_erase_ne _ other]
    exact hl.exists_site i x hx

end Gathers

/-! ### Steps -/

/-- What is done to a log at a call site. -/
inductive Step where
  /-- A hit is recorded. -/
  | record (site : OperationId) (hit : SinkHit)
  /-- The hits of a log are absorbed, which was made by steps, too. -/
  | absorb (site : OperationId) (other : List Step)
  /-- What was recorded and absorbed is withdrawn. -/
  | withdraw (site : OperationId)

mutual

/-- Takes a step. -/
def Step.act : Step → HitLog → HitLog
  | .record site hit, log => log.record site hit
  | .absorb site other, log => log.absorb site (actAll other empty)
  | .withdraw site, log => log.withdraw site

/-- Takes steps one after the other. -/
def actAll : List Step → HitLog → HitLog
  | [], log => log
  | s :: later, log => actAll later (s.act log)

end

/-- The log that is made by some steps. -/
def after (history : List Step) : HitLog := actAll history empty

theorem after_concat (history : List Step) (s : Step) : after (history ++ [s]) = s.act (after history) := by
  have append (l : List Step) (log : HitLog) : actAll (l ++ [s]) log = s.act (actAll l log) := by
    induction l generalizing log with
    | nil => simp [actAll]
    | cons _ l ih => simp [actAll, ih]
  exact append history empty

/-- What holds of no steps, and of one more step if it holds of those before and of those of a log that it absorbs, holds of
all. -/
theorem stepInduction {P : List Step → Prop} (nil : P [])
    (concat : ∀ history s, P history → (∀ site other, s = .absorb site other → P other) → P (history ++ [s]))
    (history : List Step) : P history := by
  -- From the end of the list, where withdrawals act; a log that is absorbed is smaller than the whole.
  have inner (l : List Step) (hl : ∀ s ∈ l, ∀ site other, s = .absorb site other → P other) : P l := by
    induction l using List.reverseRecOn with
    | nil => exact nil
    | append_singleton l s ih =>
      exact concat l s (ih fun t ht => hl t (List.mem_append_left _ ht)) (hl s (List.mem_append_right _ List.mem_cons_self))
  refine inner history fun s hs site other same => ?_
  have smaller : sizeOf other < sizeOf history := by
    have := List.sizeOf_lt_of_mem hs
    rw [same, Step.absorb.sizeOf_spec] at this
    omega
  exact stepInduction nil concat other
termination_by sizeOf history

/-! ### Contributions -/

/-- A hit was contributed to a call site: the site has recorded it, or absorbed a log to which it was contributed, and has not
withdrawn since. -/
inductive Contributed : List Step → OperationId → SinkHit → Prop where
  | record {before later : List Step} {site : OperationId} {hit : SinkHit} : .withdraw site ∉ later →
      Contributed (before ++ .record site hit :: later) site hit
  | absorb {before later other : List Step} {site inner : OperationId} {hit : SinkHit} : .withdraw site ∉ later →
      Contributed other inner hit → Contributed (before ++ .absorb site other :: later) site hit

/-- What a step contributes to a call site. -/
def Step.Gives (s : Step) (i : OperationId) (x : SinkHit) : Prop :=
  s = .record i x ∨ ∃ other j, s = .absorb i other ∧ Contributed other j x

variable {history later other : List Step} {i : OperationId} {x : SinkHit}

@[simp]
theorem gives_record : (Step.record site h).Gives i x ↔ i = site ∧ x = h := by
  simp [Step.Gives, eq_comm]

@[simp]
theorem gives_absorb : (Step.absorb site other).Gives i x ↔ i = site ∧ ∃ j, Contributed other j x := by
  simp [Step.Gives, eq_comm]

@[simp]
theorem not_gives_withdraw : ¬(Step.withdraw site).Gives i x := by
  simp [Step.Gives]

theorem contributed_iff : Contributed history i x ↔
    ∃ before s later, history = before ++ s :: later ∧ s.Gives i x ∧ Step.withdraw i ∉ later := by
  constructor
  · rintro (fresh | ⟨fresh, given⟩)
    · exact ⟨_, _, _, rfl, .inl rfl, fresh⟩
    · exact ⟨_, _, _, rfl, .inr ⟨_, _, rfl, given⟩, fresh⟩
  · rintro ⟨before, s, later, rfl, rfl | ⟨other, j, rfl, given⟩, fresh⟩
    · exact .record fresh
    · exact .absorb fresh given

@[simp]
theorem not_contributed_nil : ¬Contributed [] i x := fun h => by
  obtain ⟨before, s, later, split, -⟩ := contributed_iff.1 h
  simp at split

/-- One step more withdraws contributions, or adds its own. -/
theorem contributed_concat {s : Step} :
    Contributed (history ++ [s]) i x ↔ s ≠ .withdraw i ∧ Contributed history i x ∨ s.Gives i x := by
  rw [contributed_iff, contributed_iff]
  constructor
  · rintro ⟨before, t, later, split, gives, fresh⟩
    -- The step that gives the hit is the last one, or stands before it.
    cases later using List.reverseRecOn with
    | nil =>
      obtain ⟨-, same⟩ := List.append_inj' split rfl
      obtain rfl : s = t := by simpa using same
      exact .inr gives
    | append_singleton later last =>
      rw [← List.cons_append, ← List.append_assoc] at split
      obtain ⟨rfl, same⟩ := List.append_inj' split rfl
      obtain rfl : s = last := by simpa using same
      simp only [List.mem_append, List.mem_singleton, not_or] at fresh
      exact .inl ⟨fun same => fresh.2 same.symm, before, t, later, rfl, gives, fresh.1⟩
  · rintro (⟨other, before, t, later, rfl, gives, fresh⟩ | gives)
    · refine ⟨before, t, later ++ [s], by simp, gives, ?_⟩
      simp only [List.mem_append, List.mem_singleton, not_or]
      exact ⟨fresh, fun same => other same.symm⟩
    · exact ⟨history, s, [], rfl, gives, List.not_mem_nil⟩

/-- Later steps withdraw contributions, and add their own. -/
theorem contributed_append :
    Contributed (history ++ later) i x ↔ Step.withdraw i ∉ later ∧ Contributed history i x ∨ Contributed later i x := by
  induction later using List.reverseRecOn with
  | nil => simp [not_contributed_nil]
  | append_singleton later s ih =>
    have withdrawn : Step.withdraw i ∉ later ++ [s] ↔ s ≠ .withdraw i ∧ Step.withdraw i ∉ later := by
      simp [and_comm, eq_comm]
    rw [← List.append_assoc, contributed_concat, ih, contributed_concat, withdrawn]
    simp only [and_or_left, and_assoc, or_assoc]

@[simp]
theorem contributed_cons {s : Step} :
    Contributed (s :: later) i x ↔ Step.withdraw i ∉ later ∧ s.Gives i x ∨ Contributed later i x := by
  have first : Contributed [s] i x ↔ s.Gives i x := by
    rw [← List.nil_append [s], contributed_concat]
    exact or_iff_right fun h => not_contributed_nil h.2
  rw [← List.singleton_append, contributed_append, first]

/-- If nothing is withdrawn, each step contributes what it gives. -/
theorem contributed_of_not_withdrawn (fresh : ∀ site, Step.withdraw site ∉ history) :
    Contributed history i x ↔ ∃ s ∈ history, s.Gives i x := by
  rw [contributed_iff]
  constructor
  · rintro ⟨before, s, later, rfl, gives, -⟩
    exact ⟨s, by simp, gives⟩
  · rintro ⟨s, hs, gives⟩
    obtain ⟨before, later, rfl⟩ := List.append_of_mem hs
    exact ⟨before, s, later, rfl, gives, fun hw => fresh i (by simp [hw])⟩

/-- A log is made of what was contributed to it. -/
theorem gathers_after (history : List Step) : (after history).Gathers (Contributed history) := by
  induction history using stepInduction with
  | nil => exact gathers_empty.congr fun _ _ => ⟨False.elim, not_contributed_nil⟩
  | concat history s ih inner =>
    rw [after_concat]
    cases s with
    | record site hit =>
      refine (ih.record hit.gathers_self).congr fun i x => ?_
      rw [contributed_concat, gives_record, and_iff_left_of_imp (congrArg SinkHit.key)]
      simp
    | absorb site other =>
      refine (ih.absorb (inner site other rfl)).congr fun i x => ?_
      simp [contributed_concat]
    | withdraw site =>
      refine ih.withdraw.congr fun i x => ?_
      simp [contributed_concat, eq_comm]

/-- A step within a stretch of which nothing is withdrawn may come anywhere in it, and more than once. -/
theorem contributed_replace {before l l' later : List Step} (fresh : ∀ site, Step.withdraw site ∉ l)
    (members : ∀ s, s ∈ l' ↔ s ∈ l) :
    Contributed (before ++ l' ++ later) i x ↔ Contributed (before ++ l ++ later) i x := by
  have fresh' : ∀ site, Step.withdraw site ∉ l' := fun site hw => fresh site ((members _).1 hw)
  have stretch : Contributed l' i x ↔ Contributed l i x := by
    simp only [contributed_of_not_withdrawn fresh, contributed_of_not_withdrawn fresh', members]
  simp only [contributed_append, stretch, fresh i, fresh' i, not_false_eq_true, true_and]

/-! ### Absorbing twice -/

/-- A call site has found a hit, with all its sources. -/
def Knows (log : HitLog) (site : OperationId) (h : SinkHit) : Prop :=
  ∃ s old, log.sites.find? site = some s ∧ s.find? h.key = some old ∧ ∀ a ∈ h.sources, a ∈ old.sources

theorem knows_record (log : HitLog) (site : OperationId) (h : SinkHit) : (log.record site h).Knows site h := by
  obtain ⟨new, hadd, sources⟩ := HitSet.exists_add ((log.sites.find? site).getD FinMap.empty) h
  refine ⟨_, new, FinMap.find?_insert_self _ _ _, ?_, fun a ha => sources a (.inl ha)⟩
  rw [hadd, FinMap.find?_insert_self]

namespace Knows

/-- What is known makes no difference. -/
theorem record_eq (known : log.Knows site h) : log.record site h = log := by
  obtain ⟨s, old, hs, hold, sources⟩ := known
  have union : old.sources.union h.sources = old.sources := FinSet.ext fun a => by
    rw [FinSet.mem_union]
    exact or_iff_left_of_imp (sources a)
  have add : s.add h = s := by
    rw [HitSet.add, hold]
    simp only [union]
    exact FinMap.insert_eq_self hold
  rw [HitLog.record, hs, Option.getD_some, add, FinMap.insert_eq_self hs]

/-- What is known stays known. -/
theorem record (known : log.Knows site h) (h' : SinkHit) : (log.record site h').Knows site h := by
  obtain ⟨s, old, hs, hold, sources⟩ := known
  obtain ⟨new, hadd, sources'⟩ := HitSet.exists_add s h'
  have hs' : (log.record site h').sites.find? site = some (s.insert h'.key new) := by
    rw [HitLog.record, FinMap.find?_insert_self, hs, Option.getD_some, hadd]
  by_cases same : h.key = h'.key
  · refine ⟨_, new, hs', by rw [same, FinMap.find?_insert_self], fun a ha => sources' a (.inr ⟨old, ?_, sources a ha⟩)⟩
    rw [← same, hold]
  · exact ⟨_, old, hs', by rw [FinMap.find?_insert_ne _ _ same, hold], sources⟩

end Knows

/-- What is absorbed once more is known. -/
theorem absorb_absorb (log : HitLog) (site : OperationId) (other : HitLog) :
    (log.absorb site other).absorb site other = log.absorb site other := by
  have stays (l : List SinkHit) {log : HitLog} {h : SinkHit} (known : log.Knows site h) :
      (l.foldl (fun log h => log.record site h) log).Knows site h := by
    induction l generalizing log with
    | nil => exact known
    | cons h' l ih => exact ih (known.record h')
  have known (l : List SinkHit) (log : HitLog) : ∀ h ∈ l, (l.foldl (fun log h => log.record site h) log).Knows site h := by
    induction l generalizing log with
    | nil => exact fun h hh => by cases hh
    | cons h l ih => exact List.forall_mem_cons.2 ⟨stays l (knows_record log site h), ih (log.record site h)⟩
  have again (l : List SinkHit) {log : HitLog} (hl : ∀ h ∈ l, log.Knows site h) :
      l.foldl (fun log h => log.record site h) log = log := by
    induction l with
    | nil => rfl
    | cons h l ih =>
      rw [List.foldl_cons, (hl h List.mem_cons_self).record_eq]
      exact ih fun h' hh' => hl h' (List.mem_cons_of_mem _ hh')
  exact again other.hits (known other.hits log)

/-! ### What is reported -/

/-- A log reports some hits: it has one hit for those that are known alike. -/
structure Reports (log : HitLog) (P : SinkHit → Prop) : Prop where
  /-- No two hits are known alike. -/
  nodup_keys : (log.hits.map SinkHit.key).Nodup
  /-- Each of them is reported, and nothing else. -/
  exists_hit_iff : ∀ k, (∃ h ∈ log.hits, h.key = k) ↔ ∃ x, P x ∧ x.key = k
  /-- A hit is of the sink of those that are known like it, at their place. -/
  same : ∀ h ∈ log.hits, ∀ x, P x → x.key = h.key → x.sink = h.sink ∧ x.location = h.location
  /-- Its sources are those of all of them. -/
  mem_sources : ∀ h ∈ log.hits, ∀ a, a ∈ h.sources ↔ ∃ x, P x ∧ x.key = h.key ∧ a ∈ x.sources

namespace Gathers

theorem reports (hl : log.Gathers P) (agree : AgreeByKey fun x => ∃ i, P i x) : log.Reports fun x => ∃ i, P i x := by
  have merged := hl.merged
  refine ⟨merged.nodup_keys, fun k => ⟨?_, ?_⟩, fun h hh x hx hkey => ?_, fun h hh => (merged.of_mem_values hh).2.mem_sources⟩
  · rintro ⟨h, hh, rfl⟩
    obtain ⟨x, hx, hkey, -⟩ := (merged.of_mem_values hh).2.exists_same
    exact ⟨x, hx, hkey⟩
  · rintro ⟨x, hx, rfl⟩
    exact merged.exists_mem_values hx
  · obtain ⟨y, hy, hkey', hsink, hlocation⟩ := (merged.of_mem_values hh).2.exists_same
    rw [← hsink, ← hlocation]
    exact agree x y hx hy (hkey.trans hkey'.symm)

/-- A log is empty if nothing was contributed to it. -/
theorem isEmpty_iff (hl : log.Gathers P) : log.isEmpty = true ↔ ∀ i x, ¬P i x := by
  rw [isEmpty, List.all_eq_true]
  constructor
  · intro none i x hx
    obtain ⟨s, hs⟩ := hl.exists_site i x hx
    obtain ⟨h, hh⟩ := (hl.sites i s hs).1.exists_hit x hx
    have entry := FinMap.mem_entries.2 hh
    rw [List.isEmpty_iff.1 (none s (List.mem_map.2 ⟨(i, s), FinMap.mem_entries.2 hs, rfl⟩))] at entry
    cases entry
  · intro none s hs
    obtain ⟨⟨i, s⟩, hentry, rfl⟩ := List.mem_map.1 hs
    obtain ⟨-, x, hx⟩ := hl.sites i s (FinMap.mem_entries.1 hentry)
    exact absurd hx (none i x)

/-- It has no hits then, and otherwise it has some. -/
theorem size_eq_zero_iff (hl : log.Gathers P) : log.size = 0 ↔ ∀ i x, ¬P i x := by
  rw [size, List.length_eq_zero_iff, List.eq_nil_iff_forall_not_mem]
  constructor
  · intro none i x hx
    obtain ⟨h, hh, -⟩ := hl.merged.exists_mem_values ⟨i, hx⟩
    exact none h hh
  · intro none h hh
    obtain ⟨x, ⟨i, hx⟩, -⟩ := (hl.merged.of_mem_values hh).2.exists_same
    exact none i x hx

end Gathers

/-- Contributions that are known alike are of the same sink at the same place, whatever the call sites. -/
def Consistent (history : List Step) : Prop := AgreeByKey fun x => ∃ i, Contributed history i x

/-- **A log reports what is contributed to it.** For any steps whose contributions are of the same sink at the same place if
they are known alike, its hits are those that were contributed to a call site which has not withdrawn since, each one once and
with the sources of all of its contributions. Logs with the same contributions are equal, so that the order of steps without
withdrawals between them does not matter, and neither does their repetition. What is absorbed once more makes no difference. A
call site withdraws its own contributions, and no others. The log is empty exactly if it has no hits. -/
theorem after_reports (history : List Step) (consistent : Consistent history) :
    ((after history).Reports fun x => ∃ i, Contributed history i x) ∧
    (∀ history', (∀ i x, Contributed history' i x ↔ Contributed history i x) → after history' = after history) ∧
    (∀ before l l' later, history = before ++ l ++ later → (∀ site, Step.withdraw site ∉ l) → (∀ s, s ∈ l' ↔ s ∈ l) →
      after (before ++ l' ++ later) = after history) ∧
    (∀ site other, ((after history).absorb site other).absorb site other = (after history).absorb site other) ∧
    (∀ site, (∀ i, i ≠ site → ((after history).withdraw site).sites.find? i = (after history).sites.find? i) ∧
      ((after history).withdraw site).Reports fun x => ∃ i, i ≠ site ∧ Contributed history i x) ∧
    ((after history).isEmpty = true ↔ (after history).size = 0) := by
  have gathers := gathers_after history
  have determined (history' : List Step) (same : ∀ i x, Contributed history' i x ↔ Contributed history i x) :
      after history' = after history :=
    ((gathers_after history').congr same).eq (fun i x y hx hy => consistent x y ⟨i, hx⟩ ⟨i, hy⟩) gathers
  refine ⟨gathers.reports consistent, determined, ?_, fun site other => absorb_absorb _ site other, fun site => ⟨?_, ?_⟩, ?_⟩
  · rintro before l l' later rfl fresh members
    exact determined _ fun _ _ => contributed_replace fresh members
  · exact fun i other => FinMap.find?_erase_ne _ other
  · exact gathers.withdraw.reports fun x y ⟨i, hx⟩ ⟨j, hy⟩ => consistent x y ⟨i, hx.2⟩ ⟨j, hy.2⟩
  · rw [gathers.isEmpty_iff, gathers.size_eq_zero_iff]

namespace Twice

/-! A call of `query` stands in line 9 of `run`, which calls itself. -/

/-- The query. -/
def query : Symbol := Symbol.method "Db" "query" none

/-- It is accessed by `run`. -/
def access (line : UInt32) : SymbolAccess := ⟨query, ⟨line, 0⟩, Symbol.method "Page" "run" none⟩

/-- Its first argument may come from a line. -/
def hit (line : UInt32) : SinkHit := ⟨query, ⟨4⟩, access 9, 0, FinSet.singleton (access line)⟩

/-- The call itself finds a hit, and two calls of `run` find it again. One of them has withdrawn it. -/
def steps : List Step :=
  [.record ⟨4⟩ (hit 1), .record ⟨7⟩ (hit 3), .absorb ⟨12⟩ [.record ⟨4⟩ (hit 2), .record ⟨4⟩ (hit 2)], .withdraw ⟨7⟩]

theorem contributed_steps : Contributed steps i x ↔ i = ⟨4⟩ ∧ x = hit 1 ∨ i = ⟨12⟩ ∧ x = hit 2 := by
  simp only [steps, contributed_cons, gives_record, gives_absorb, not_gives_withdraw, not_contributed_nil, List.mem_cons,
    List.not_mem_nil, reduceCtorEq, Step.withdraw.injEq, false_or, or_false, not_false_eq_true, and_false, true_and, or_self]
  constructor
  · rintro (⟨-, found⟩ | ⟨left, gone, -⟩ | ⟨-, rfl, -, -, found⟩)
    · exact .inl found
    · exact absurd gone left
    · exact .inr ⟨rfl, found⟩
  · rintro (⟨rfl, found⟩ | ⟨rfl, found⟩)
    · exact .inl ⟨by decide, rfl, found⟩
    · exact .inr (.inr ⟨by decide, rfl, ⟨4⟩, rfl, found⟩)

theorem exists_contributed : (∃ i, Contributed steps i x) ↔ x = hit 1 ∨ x = hit 2 := by
  simp [contributed_steps, exists_or]

theorem consistent_steps : Consistent steps := by
  rintro x y hx hy -
  obtain rfl | rfl := exists_contributed.1 hx <;> obtain rfl | rfl := exists_contributed.1 hy <;> exact ⟨rfl, rfl⟩

theorem key_hit (line : UInt32) : (hit line).key = (hit 1).key := rfl

theorem mem_sources_hit {line : UInt32} {a : SymbolAccess} : a ∈ (hit line).sources ↔ a = access line := FinSet.mem_singleton

end Twice

open Twice in
/-- The query is one hit, and its argument may come from two lines. If the call of `run` is withdrawn, one of them is left. -/
theorem after_reports_twice : Consistent steps ∧
    (∃ h ∈ (after steps).hits, h.key = (hit 1).key ∧ ∀ a, a ∈ h.sources ↔ a = access 1 ∨ a = access 2) ∧
    (∃ h ∈ ((after steps).withdraw ⟨12⟩).hits, h.key = (hit 1).key ∧ ∀ a, a ∈ h.sources ↔ a = access 1) ∧
    after [.record ⟨7⟩ (hit 3), .record ⟨4⟩ (hit 1), .record ⟨7⟩ (hit 3),
      .absorb ⟨12⟩ [.record ⟨4⟩ (hit 2), .record ⟨4⟩ (hit 2)], .withdraw ⟨7⟩] = after steps ∧
    (after steps).isEmpty = false := by
  obtain ⟨reports, -, replaced, -, withdrawn, empty⟩ := after_reports steps consistent_steps
  obtain ⟨-, left⟩ := withdrawn ⟨12⟩
  have remaining {x : SinkHit} : (∃ i, i ≠ ⟨12⟩ ∧ Contributed steps i x) ↔ x = hit 1 := by
    simp only [contributed_steps]
    constructor
    · rintro ⟨i, other, ⟨-, found⟩ | ⟨same, -⟩⟩
      · exact found
      · exact absurd same other
    · exact fun found => ⟨⟨4⟩, by decide, .inl ⟨rfl, found⟩⟩
  obtain ⟨h, hh, hkey⟩ := (reports.exists_hit_iff (hit 1).key).2 ⟨hit 1, exists_contributed.2 (.inl rfl), rfl⟩
  obtain ⟨h', hh', hkey'⟩ := (left.exists_hit_iff (hit 1).key).2 ⟨hit 1, remaining.2 rfl, rfl⟩
  refine ⟨consistent_steps, ⟨h, hh, hkey, fun a => ?_⟩, ⟨h', hh', hkey', fun a => ?_⟩, ?_, ?_⟩
  · rw [reports.mem_sources h hh]
    simp only [exists_contributed, hkey, or_and_right, exists_or, exists_eq_left, key_hit 2, mem_sources_hit, true_and]
  · rw [left.mem_sources h' hh']
    simp only [remaining, hkey', exists_eq_left, mem_sources_hit, true_and]
  · refine replaced [] [.record ⟨4⟩ (hit 1), .record ⟨7⟩ (hit 3), .absorb ⟨12⟩ [.record ⟨4⟩ (hit 2), .record ⟨4⟩ (hit 2)]]
      [_, _, _, _] [.withdraw ⟨7⟩] rfl (by simp) fun s => ?_
    simp only [List.mem_cons, List.not_mem_nil, or_false]
    tauto
  · rw [Bool.eq_false_iff]
    exact fun none => List.ne_nil_of_mem hh (List.length_eq_zero_iff.1 (empty.1 none))

end HitLog

end Dataflow
