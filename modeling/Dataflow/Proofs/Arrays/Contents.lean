import Dataflow.Analysis.Contents
import Dataflow.Proofs.Arrays.Locations
import Dataflow.Proofs.State.Writes

/-!
# What cells hold

The analysis of literal content has a content for each element, which is named by the locals in its indices. When one of
these is assigned to, the element becomes another cell, and the content stays. So contents are right only for the cell
that an element was when something was last stored through its indices: these are the reads that `Memory.Steady` allows.

## What is proved

A store through some indices lets every element gain the value that may be the same cell (`mayAlias_of_mayName`), and
those through other indices stay the elements that they were (`index_injective`). So each hook keeps what elements show
within their contents (`cellContents_sound`), and with the points-to analysis of the same body `solve_elements` says it
of solutions.
-/

namespace Dataflow

/-- Different indices are different positions of entities. -/
theorem Subscript.index_injective (owner : Symbol) : Function.Injective (Subscript.index owner) := by
  intro i j h
  cases i <;> cases j <;> cases h <;> rfl

/-- Indices that may name one position may be equal. -/
theorem Subscript.mayEqual_of_mayName {Ω : Type} {owner : Symbol} {i j : Subscript} {d : Datum Ω} (hi : i.MayName d)
    (hj : j.MayName d) : (i.index owner).mayEqual (j.index owner) = true := by
  cases i with
  | constant m =>
    cases j with
    | constant n =>
      obtain rfl : d = .literal (.integer m) := hi
      obtain ⟨rfl⟩ : m = n := Literal.integer.inj (Datum.literal.inj hj)
      exact beq_self_eq_true m
    | localVar | result => rfl
  | localVar | result => rfl

namespace Arrays

variable {V Ω : Type}

/-! ### Elements -/

/-- Elements that may name one position are of the same kind. -/
theorem sameKind_of_mayName {owner : Symbol} {a b : PointsTo} {is js : List Subscript} {t u : Option TypeRef}
    {position : List (Datum Ω)} (hi : List.Forall₂ Subscript.MayName is position)
    (hj : List.Forall₂ Subscript.MayName js position) :
    (Entity.element a (is.map (·.index owner)) t).sameKind (.element b (js.map (·.index owner)) u) = true := by
  have lengths : is.length = js.length := hi.length_eq.trans hj.length_eq.symm
  unfold Entity.sameKind
  simp only [List.length_map, lengths, beq_self_eq_true, Bool.true_and]
  clear lengths
  induction hi generalizing js with
  | nil => rfl
  | cons hd hrest ih =>
    cases hj with
    | cons hd' hrest' =>
      simp only [List.map_cons, List.zip_cons_cons, List.all_cons, Bool.and_eq_true]
      exact ⟨Subscript.mayEqual_of_mayName hd hd', ih hrest'⟩

/-- Elements of what may be the array that may name one position may be the same cell. -/
theorem mayAlias_of_mayName {ctx : Context V} {site : OperationInfo} {owner : Symbol} {a b : PointsTo}
    {is js : List Subscript} {t u : Option TypeRef} {position : List (Datum Ω)}
    (ha : PointsTo.MayBe (allocationOf ctx site) a) (hb : PointsTo.MayBe (allocationOf ctx site) b)
    (hi : List.Forall₂ Subscript.MayName is position) (hj : List.Forall₂ Subscript.MayName js position) :
    (Entity.element a (is.map (·.index owner)) t).mayAlias (.element b (js.map (·.index owner)) u) = true := by
  unfold Entity.mayAlias
  split
  · rfl
  · rw [sameKind_of_mayName hi hj, Bool.not_true, if_neg Bool.false_ne_true]
    refine (if_neg Bool.false_ne_true).trans ?_
    split
    · rfl
    · rename_i hknown
      rw [Bool.or_eq_true, not_or] at hknown
      -- Both arrays have known locations, so the allocation is one of them.
      have known {c : PointsTo} (hc : PointsTo.MayBe (allocationOf ctx site) c) (h : ¬(!c.isKnown) = true) :
          allocationOf ctx site ∈ c.locations := by
        cases c <;> simp_all [PointsTo.MayBe, PointsTo.isKnown, PointsTo.isUnknown]
      refine List.any_eq_true.2 ⟨allocationOf ctx site, List.mem_filter.2 ⟨known ha hknown.1, rfl⟩, ?_⟩
      exact List.contains_iff_mem.2 (known hb hknown.2)

/-- An element may show a value: anything before the array is made, and then what is in a cell that it stands for. It
stands for the cells at the positions that its indices may name, but if something was stored through them only for the
cell that was last stored into. -/
inductive Shows (ctx : Context V) (mem : Memory Ω) : Entity → Datum Ω → Prop where
  /-- There is no array. -/
  | unmade {array : PointsTo} {indices : List ElementIndex} {type : Option TypeRef} {d : Datum Ω} :
      mem.array = none → Shows ctx mem (.element array indices type) d
  /-- The value in a cell. -/
  | cell {array : PointsTo} {indices : List Subscript} {type : Option TypeRef} {site : OperationInfo} {cells : Cells Ω}
      {position : List (Datum Ω)} :
      mem.array = some (site, cells) → PointsTo.MayBe (allocationOf ctx site) array →
        List.Forall₂ Subscript.MayName indices position → mem.Steady indices position →
          Shows ctx mem (.element array (indices.map (·.index ctx.owner)) type) (cells position)

/-- Only the array matters, and what was stored through which indices. -/
theorem Shows.congr {ctx : Context V} {mem mem' : Memory Ω} {e : Entity} {d : Datum Ω} (h : Shows ctx mem e d)
    (array : mem'.array = mem.array) (stored : mem'.stored = mem.stored) : Shows ctx mem' e d := by
  cases h with
  | unmade hnone => exact .unmade (array.trans hnone)
  | cell harray hmay hname hsteady =>
    exact .cell (array.trans harray) hmay hname fun last hlast => hsteady last (stored ▸ hlast)

/-- Before the array is made an element shows anything. -/
theorem Shows.of_make {ctx : Context V} {mem : Memory Ω} {site : OperationInfo} {cells : Cells Ω} {e : Entity}
    {d : Datum Ω} (h : Shows ctx (mem.make site cells) e d) (hnone : mem.array = none) : Shows ctx mem e d := by
  cases h with
  | unmade h => cases h
  | cell => exact .unmade hnone

theorem Shows.isMethodLocal {ctx : Context V} {mem : Memory Ω} {e : Entity} {d : Datum Ω} (h : Shows ctx mem e d) :
    e.isMethodLocal = false := by
  cases h <;> rfl

/-- What an element shows after a store: the value that was stored, if the two may be the same cell, or what another
element showed before. -/
theorem Shows.of_store {ctx : Context V} {mem : Memory Ω} {indices : List Subscript} {position : List (Datum Ω)}
    {site : OperationInfo} {cells : Cells Ω} {array : PointsTo} {type : Option TypeRef} {d d' : Datum Ω} {e : Entity}
    (h : Shows ctx (mem.store indices position d) e d') (harray : mem.array = some (site, cells))
    (hmay : PointsTo.MayBe (allocationOf ctx site) array) (hname : List.Forall₂ Subscript.MayName indices position) :
    (d' = d ∧ (Entity.element array (indices.map (·.index ctx.owner)) type).mayAlias e = true) ∨
      (Shows ctx mem e d' ∧ e ≠ .element array (indices.map (·.index ctx.owner)) type) := by
  classical
  have made : (mem.store indices position d).array = some (site, Function.update cells position d) := by
    simp [Memory.store, harray]
  cases h with
  | unmade hnone =>
    rw [made] at hnone
    cases hnone
  | @cell array' indices' type' site' cells' position' harray' hmay' hname' hsteady' =>
    obtain ⟨rfl, rfl⟩ := Prod.mk.inj (Option.some.inj (made.symm.trans harray'))
    by_cases hposition : position' = position
    · subst hposition
      exact .inl ⟨Function.update_self .., mayAlias_of_mayName hmay hmay' hname hname'⟩
    · rw [Function.update_of_ne hposition]
      have hindices : indices' ≠ indices := by
        rintro rfl
        exact hposition (hsteady' position (Function.update_self ..)).symm
      refine .inr ⟨.cell harray hmay' hname' fun last hlast => hsteady' last ?_, fun he => ?_⟩
      · exact (Function.update_of_ne hindices ..).trans hlast
      · injection he with _ hsame _
        exact hindices (List.map_injective_iff.2 (Subscript.index_injective ctx.owner) hsame)

/-! ### Contents -/

/-- If the value is a datum, the content allows it. -/
def AllowsValue (a : Content) (v : Value Ω) : Prop := ∀ d, v = .datum d → a.Allows d

/-- What elements show is what their contents allow. -/
def Within (ctx : Context Content) (s : State Content) (mem : Memory Ω) : Prop :=
  ∀ e d, Shows ctx mem e d → (State.valueOr Domain.contents s e).Allows d

/-- Locals hold what their contents allow, and elements show it, if the array is where the points-to analysis says. -/
def cellContents (Ω : Type) (ctx : Context Content) : Account Content Ω where
  fits s mem := (localsAllow Domain.contents ctx.owner AllowsValue).fits s mem.vars ∧ Within ctx s mem
  describes := AllowsValue
  allowed op site := PointsTo.MayBe (allocationOf ctx site) (ctx.locationOf op)

/-- What may be the storage that is written to may hold the value afterwards. -/
theorem valueOr_write_allows {s : State Content} {e a : Entity} {c : Content} {d : Datum Ω}
    (halias : e.mayAlias a = true) (hlocal : a.isMethodLocal = false) (hc : c.Allows d) :
    (State.valueOr Domain.contents (State.write Domain.contents e c s) a).Allows d := by
  have held := State.find?_write Domain.contents e c s a
  by_cases hae : a = e
  · rw [if_pos hae] at held
    rw [State.valueOr_of_find? _ held]
    split
    · exact Content.merge_allows (.inr hc)
    · exact hc
  · rw [if_neg hae, if_pos halias] at held
    cases hs : s.find? a with
    | none =>
      rw [hs] at held
      rw [State.valueOr_of_not_mentioned _ held]
      -- An element that is not mentioned may hold anything.
      cases a <;> first | exact Content.any_allows d | cases hlocal
    | some u =>
      rw [hs] at held
      rw [State.valueOr_of_find? _ held]
      exact Content.merge_allows (.inr hc)

/-- What another entity may hold it may still hold after a write. -/
theorem valueOr_write_allows_of_ne {s : State Content} {e a : Entity} {c : Content} {d : Datum Ω} (hne : a ≠ e)
    (hd : (State.valueOr Domain.contents s a).Allows d) :
    (State.valueOr Domain.contents (State.write Domain.contents e c s) a).Allows d := by
  have held := State.find?_write Domain.contents e c s a
  rw [if_neg hne] at held
  split at held
  · cases hs : s.find? a with
    | none =>
      rw [hs] at held
      rwa [State.valueOr_of_not_mentioned _ held, ← State.valueOr_of_not_mentioned _ hs]
    | some u =>
      rw [hs] at held
      rw [State.valueOr_of_find? _ hs] at hd
      rw [State.valueOr_of_find? _ held]
      exact Content.merge_allows (.inl hd)
  · rwa [State.valueOr, held]

/-- If entities of unknown objects are tracked, every element has an entity. -/
theorem elementAt_eq {ctx : Context V} (tracks : ctx.tracksUnknown = true) (i : OperationInfo) (array : PointsTo)
    (indices : List Subscript) :
    elementAt ctx i array indices = some (.element array (indices.map (·.index ctx.owner)) i.type) := by
  unfold elementAt
  rw [tracks, Bool.or_true, if_pos rfl]

/-- Every hook keeps values within their contents, if elements are read while they are the cells that they were. -/
theorem cellContents_sound {ctx : Context Content} (copies : ctx.copies = none) (tracks : ctx.tracksUnknown = true)
    (entry : ctx.entry = none) : (cellContents Ω ctx).Sound Memory.Steady Analysis.contents ctx where
  reference := reference_ensures (fun _ _ => rfl) fun _ => rfl
  assign := by
    intro op e a m
    cases e with
    | none => exact (Visit.ensures_pure _ _ _).2 ⟨rfl, rfl⟩
    | some e =>
      have alone : Analysis.ContentAnalysis.copiesAfter ctx op e = [] := by
        unfold Analysis.ContentAnalysis.copiesAfter
        rw [copies]
        rfl
      show Visit.Ensures (Analysis.ContentAnalysis.assign ctx op (some e) a) m _
      unfold Analysis.ContentAnalysis.assign
      simp only [alone, List.foldl_nil, Visit.ensures_bind, Visit.ensures_state, Visit.ensures_setState,
        Visit.ensures_pure]
      exact ⟨rfl, trivial⟩
  merge := by
    rintro s t mem h
    refine ⟨Reading.fits_merge_of_values Content.merge_self (fun a b v h d hv => Content.merge_allows
      (h.imp (fun h => h d hv) fun h => h d hv)) (h.imp And.left And.left), fun e d hd => ?_⟩
    show (State.valueOr Domain.contents (State.merge Domain.contents s t) e).Allows d
    rw [State.valueOr_merge Content.merge_self]
    exact Content.merge_allows (h.imp (fun h => h.2 e d hd) fun h => h.2 e d hd)
  widen := by
    rintro s t mem ⟨locals, elements⟩
    refine ⟨Reading.fits_widen_of_values Content.merge_self
      (fun a b v h d hv => Content.widenValue_allows (h d hv)) locals, fun e d hd => ?_⟩
    show (State.valueOr Domain.contents (State.widen Domain.contents s t) e).Allows d
    rw [State.valueOr_widen Content.merge_self]
    exact Content.widenValue_allows (elements e d hd)
  initial := by
    refine fun s h => ⟨fun (x : Symbol) v hx => ?_, fun e d hd => ?_⟩
    · cases hx
    rw [Analysis.initialState_eq_defaultEntry entry] at h
    rcases Analysis.valueOr_defaultEntry h e with ⟨-, hvalue⟩ | ⟨-, hvalue⟩
    · exact Except.ok.inj hvalue ▸ Content.any_allows d
    · show Content.Allows (State.valueOr Analysis.contents.domain s e) d
      rw [hvalue]
      cases hd <;> exact Content.any_allows _
  literal := by
    intro op l d hd
    cases hd
    exact Content.ofLiteral_allows l
  localVar := fun s mem x v h hx => h.1 x v hx
  element := by
    rintro i j x indices s mem site cells position ⟨-, elements⟩ harray hposition hsteady hmay d hd
    cases hd
    rw [placeOf, elementAt_eq tracks]
    exact elements _ _ (.cell harray hmay (mayName_of_denotes hposition) hsteady)
  binary := by
    intro op operator a b m
    show Visit.Ensures (Visit.check (Content.binary operator a b)) m _
    rw [Visit.ensures_check]
    refine fun c hc => ⟨rfl, fun u v w ha hb hw d hd => ?_⟩
    cases hd
    exact Content.binary_allows (ha u rfl) (hb v rfl) hc hw
  creation := by
    intro i dimensions m
    exact (Visit.ensures_pure _ _ _).2 ⟨rfl, fun d hd => by cases hd⟩
  make := fun s mem site cells h hnone => ⟨h.1, fun e d hd => h.2 e d (hd.of_make hnone)⟩
  set := by
    rintro s mem x a v ⟨locals, elements⟩ ha
    show _ ∧ Within ctx (State.write Domain.contents (.localVar x ctx.owner) a s) (mem.set x v)
    refine ⟨?_, fun e d hd => ?_⟩
    · show (localsAllow Domain.contents ctx.owner AllowsValue).fits
        (State.write Domain.contents (.localVar x ctx.owner) a s) (mem.vars.set x (some v))
      rw [State.write_of_isMethodLocal _ _ _ rfl]
      refine Reading.fits_insert locals fun w hw => ?_
      rw [← Option.some.inj hw]
      exact ha
    · refine valueOr_write_allows_of_ne ?_ (elements e d (hd.congr rfl rfl))
      rintro rfl
      cases hd.isMethodLocal
  store := by
    rintro i j x indices s₀ s mem site cells position a d ⟨locals, elements⟩ harray hname hmay ha
    rw [placeOf, elementAt_eq tracks]
    refine ⟨Reading.fits_of_valueOr_eq locals fun y => ?_, fun e d' hd' => ?_⟩
    · exact State.valueOr_write_of_isMethodLocal _ _ _ rfl fun he => by cases he
    · rcases hd'.of_store harray hmay hname with ⟨rfl, halias⟩ | ⟨hshown, hne⟩
      · exact valueOr_write_allows halias hd'.isMethodLocal (ha d' rfl)
      · exact valueOr_write_allows_of_ne hne (elements e d' hshown)
  forget := by
    rintro x s s' mem ⟨locals, elements⟩ hs
    obtain rfl := Except.ok.inj hs
    refine ⟨Reading.fits_erase locals, fun e d hd => ?_⟩
    rw [State.valueOr_erase_ne]
    · exact elements e d (hd.congr rfl rfl)
    · rintro rfl
      cases hd.isMethodLocal

/-! ### Solutions -/

/-- Whenever an element is read while it is the cell that it was, the content that the solution has for it allows the
value. -/
theorem solve_elements {ctx : Context Content} {ledger ledger' : Ledger Content} {sol : Solution Content}
    {ctx' : Context PointsTo} {start finish : Ledger PointsTo} {used : Solution PointsTo}
    (h : (Analysis.contents.solve ctx).run ledger = (.ok sol, ledger'))
    (references : (Analysis.pointsTo.solve ctx').run start = (.ok used, finish)) (pointsTo : ctx.pointsTo = some used)
    (graph : ctx'.graph = ctx.graph) (callStack : ctx'.callStack = ctx.callStack) (copies : ctx.copies = none)
    (tracks : ctx.tracksUnknown = true) (entry : ctx.entry = none) (valid : ctx.graph.Valid)
    (shaped : ctx.graph.OverArray) (distinct : ctx.graph.DistinctIds) {b : Block} {op : Operation} {ops : List Operation}
    {mem : Memory Ω} (hreached : Reached Memory.Steady ctx.graph b (op :: ops) mem) {o : Operation} {d : Datum Ω}
    (hev : Emits Memory.Steady op mem ⟨o, .datum d⟩) : ∃ c, sol.valueAt o.id = some c ∧ c.Allows d := by
  have permits : (cellContents Ω ctx).PermitsRuns Memory.Steady ctx.graph := by
    intro b' op' ops' mem' hreached' j x site hemits
    rw [← graph] at valid shaped distinct hreached'
    obtain ⟨a, ha, hmay⟩ := solve_locations references valid shaped distinct hreached' hemits
    have location : ctx.locationOf (.localRef j x) = a := by
      unfold Context.locationOf
      rw [pointsTo, Option.bind_some, ha]
    have site' : allocationOf ctx site = allocationOf ctx' site := by
      unfold allocationOf Context.owner Context.callSites
      rw [graph, callStack]
    show PointsTo.MayBe (allocationOf ctx site) (ctx.locationOf (.localRef j x))
    rw [location, site']
    exact hmay
  obtain ⟨c, hc, hallows⟩ :=
    run_explained (cellContents_sound copies tracks entry) valid shaped distinct h permits hreached hev
  exact ⟨c, hc, hallows d rfl⟩

end Arrays

end Dataflow
