import Dataflow.Proofs.Arrays.Contents
import Dataflow.Proofs.Session.Records

/-!
# Elements of an array on request

What a session answers to a request for the literal content of a body, with the points-to analysis and without classes of
copies, holds for the elements that the body reads while they are the cells that they were, whatever was requested before.

## What is proved

`valueContent_reads`: if the answer has only literals for such a read, then the value is one of them. The answer was
computed with the references of the same body (`recordOf_admits`), and such a solution is sound (`solve_elements`).
`valueContent_misreads`: a read of another cell through the same index is answered with what was stored before.
-/

namespace Dataflow

namespace Arrays

/-! ### What is on file -/

/-- The solution is what the points-to analysis finds out about a body that nobody calls. -/
def IsReferencesOf (g : Graph) (sol : Solution PointsTo) : Prop :=
  ∃ (ctx : Context PointsTo) (ledger ledger' : Ledger PointsTo), ctx.graph = g ∧ ctx.callStack = [] ∧
    (Analysis.pointsTo.solve ctx).run ledger = (.ok sol, ledger')

/-- The solution is what the analysis of literal content finds out about a body that nobody calls, with the references
of the body and without classes of copies. -/
def IsContentsOf (g : Graph) (sol : Solution Content) : Prop :=
  ∃ (ctx : Context Content) (used : Solution PointsTo) (ledger ledger' : Ledger Content), ctx.graph = g ∧
    ctx.callStack = [] ∧ ctx.entry = none ∧ ctx.copies = none ∧ ctx.tracksUnknown = true ∧ ctx.pointsTo = some used ∧
      IsReferencesOf g used ∧ (Analysis.contents.solve ctx).run ledger = (.ok sol, ledger')

/-- What is on file for the body was computed for it. -/
def recordOf (g : LoadedGraph) : Record := fun key o =>
  key.graph = g.label → key.config.pointsToUse = .complete → key.config.usesCopies = false →
    match o with
    | .pointsTo sol => IsReferencesOf g.graph sol
    | .valueContent sol => IsContentsOf g.graph sol
    | .copy _ | .taintedData _ => True

theorem recordOf_respects (g : LoadedGraph) : (recordOf g).Respects := by
  intro key key' o hkey h hgraph hcomplete hcopies
  obtain ⟨-, graph, config, -⟩ := CacheKey.beq_iff.1 hkey
  obtain ⟨-, complete, copies, -⟩ := Config.beq_iff.1 config
  exact h (graph.trans hgraph) (complete.trans hcomplete) (copies.trans hcopies)

/-- Runs over the body find out something about it. -/
theorem recordOf_admits {g h : LoadedGraph} (same : h.label = g.label → h.graph = g.graph) (config : Config)
    (s : Session) : (recordOf g).Admits h config s where
  pointsTo := by
    rintro sol ⟨ledger, ledger', hrun⟩ hlabel - -
    exact ⟨_, ledger, ledger', same hlabel, rfl, hrun⟩
  copy := fun _ _ _ _ _ _ _ => trivial
  valueContent := by
    rintro used copies sol hused hcopied ⟨ledger, ledger', hrun⟩ hlabel hcomplete hcopies
    cases used with
    | none =>
      rw [show config.pointsToUse = .none from hused] at hcomplete
      cases hcomplete
    | some used =>
      cases copies with
      | none =>
        refine ⟨_, used, ledger, ledger', same hlabel, rfl, rfl, rfl, ?_, rfl, hused.2 hlabel hcomplete hcopies, hrun⟩
        unfold Context.tracksUnknown Context.start
        rw [hcomplete]
        rfl
      | some copies =>
        rw [hcopied.1] at hcopies
        cases hcopies
  taintedData := fun _ _ _ _ _ _ _ _ => trivial

/-! ### Reads -/

/-- Whenever an element is read while it is the cell that it was, and the answer has only literals for the read, the
value is one of them. -/
theorem valueContent_reads {s : Session} {g : LoadedGraph} {config : Config} {desk desk' : Desk}
    {stored : Stored (Solution Content)} (hdesk : Desk.Reached g desk)
    (h : (s.valueContent g config).run desk = (.ok stored, desk')) (valid : g.graph.Valid) (shaped : g.graph.OverArray)
    (distinct : g.graph.DistinctIds) (references : config.pointsToUse = .complete)
    (copies : config.usesCopies = false) {Ω : Type} {b : Block} {op : Operation} {ops : List Operation} {mem : Memory Ω}
    (hreached : Reached Memory.Steady g.graph b (op :: ops) mem) {o : Operation} {d : Datum Ω}
    (hev : Emits Memory.Steady op mem ⟨o, .datum d⟩) :
    ∃ c, stored.value.valueAt o.id = some c ∧ (c.isLiteral = true → ∃ l ∈ c.literals, d = .literal l) := by
  have respects := recordOf_respects g
  have filed : (recordOf g).Holds desk.1 := hdesk.holds respects fun s _ config same => recordOf_admits same config s
  obtain ⟨-, answered⟩ := Session.valueContent_kept respects (recordOf_admits (fun _ => rfl) config s) desk filed
  rw [h] at answered
  obtain ⟨ctx, used, ledger, ledger', hgraph, hstack, hentry, hcopies, htracks, hused, hreferences, hrun⟩ :=
    answered stored rfl rfl references copies
  obtain ⟨ctx', start, finish, hgraph', hstack', hrun'⟩ := hreferences
  rw [← hgraph] at valid shaped distinct hreached
  obtain ⟨c, hc, hallows⟩ := solve_elements hrun hrun' hused (hgraph'.trans hgraph.symm) (hstack'.trans hstack.symm)
    hcopies htracks hentry valid shaped distinct hreached hev
  exact ⟨c, hc, fun hliteral => Content.exists_of_isLiteral hliteral hallows⟩

/-! ### One index for two positions -/

namespace Reindexed

/-- The type of the elements. -/
def int : Option TypeRef := some (.value "int")

/-- The type of the array. -/
def ints : Option TypeRef := some (.reference "int[]")

/-- What an operation carries. -/
def info (id : UInt32) (type : Option TypeRef) : OperationInfo := ⟨⟨id⟩, type, ⟨0, 0⟩⟩

/-- The array. -/
def array : Symbol := Symbol.localVar "a" ints

/-- The index. -/
def index : Symbol := Symbol.localVar "i" int

/-- What is read. -/
def result : Symbol := Symbol.localVar "r" int

/-- The array is made. -/
def make : Operation :=
  .assignment (info 3 ints) (.localRef (info 0 ints) array)
    (.arrayCreation (info 2 ints) [.literal (info 1 int) (.integer 2)])

/-- The index is assigned to. The first one of three identifiers is given. -/
def move (id : UInt32) (n : Int64) : Operation :=
  .assignment (info (id + 2) int) (.localRef (info id int) index) (.literal (info (id + 1) int) (.integer n))

/-- One is stored into the element. -/
def store : Operation :=
  .assignment (info 11 int) (.elementRef (info 9 int) (.localRef (info 7 ints) array) [.localRef (info 8 int) index])
    (.literal (info 10 int) (.integer 1))

/-- The element is read. -/
def read : Operation := .elementRef (info 18 int) (.localRef (info 16 ints) array) [.localRef (info 17 int) index]

/-- What is read is kept. -/
def keep : Operation := .assignment (info 19 int) (.localRef (info 15 int) result) read

/-- What is read is returned. -/
def finish : Operation := .ret (info 21 int) (some (.localRef (info 20 int) result))

/-- Stores into the element with the index zero, and reads it with the index `n`. -/
def block (n : Int64) : Block :=
  ⟨⟨0⟩, .entry, [make, move 4 0, store, move 12 n, keep, finish], none, [⟨⟨1⟩, .regular⟩], []⟩

/-- The body. -/
def graph (n : Int64) : LoadedGraph := ⟨.single 0, ⟨Symbol.method "C" "main" int, [], [block n, .bare ⟨1⟩ .exit]⟩⟩

/-- Seven is in all cells in the beginning. -/
def cells : Cells Empty := fun _ => .literal (.integer 7)

/-- The position of an index. -/
def position (n : Int64) : List (Datum Empty) := [.literal (.integer n)]

/-- The memory before the element is read. -/
noncomputable def memory (n : Int64) : Memory Empty :=
  (((((Memory.start.make (info 2 ints) cells).set array (.array (info 2 ints))).set index
    (.datum (.literal (.integer 0)))).store [.localVar index] (position 0) (.literal (.integer 1))).set index
      (.datum (.literal (.integer n))))

open Classical in
/-- What the element holds then. -/
noncomputable def held (n : Int64) : Datum Empty :=
  Function.update cells (position 0) (.literal (.integer 1)) (position n)

/-- Control comes to the read. -/
theorem reached (may : Reads Empty) (n : Int64) :
    Reached may (graph n).graph (block n) [keep, finish] (memory n) := by
  have start : Reached may (graph n).graph (block n) (block n).allOperations .start := .start rfl
  have made := start.step (.assignment (.creation cells (.cons .literal .nil) rfl))
  have first := made.step (.assignment .literal)
  have stored := first.step (.store rfl (.cons rfl .nil) .literal rfl)
  exact stored.step (.assignment .literal)

/-- The element is read. -/
theorem emits {may : Reads Empty} {n : Int64} (h : may (memory n) [.localVar index] (position n)) :
    Emits may keep (memory n) ⟨read, .datum (held n)⟩ :=
  .value (.self (.element rfl rfl (.cons rfl .nil) h))

/-- The index is zero again. -/
theorem steady : (memory 0).Steady [.localVar index] (position 0) := by
  intro last hlast
  classical
  have stored : (memory 0).stored [.localVar index] = some (position 0) := by
    simp [memory, Memory.set, Memory.store]
  exact Option.some.inj (hlast.symm.trans stored)

/-- The answer has one for the read. -/
theorem content (n : Int64) (h : n = 0 ∨ n = 1) :
    ((Session.bare.valueContent (graph n) Config.usual).run Desk.clean).1.toOption.bind (fun stored =>
      (stored.value.valueAt read.id).map id) = some (Content.ofLiteral (.integer 1)) := by
  rcases h with rfl | rfl <;> decide +kernel

end Reindexed

open Reindexed in
/-- If the index is zero again then one is read. The answer has only literals for the read, so one is among them. -/
theorem valueContent_reads_again :
    ∃ stored desk', (Session.bare.valueContent (graph 0) Config.usual).run Desk.clean = (.ok stored, desk') ∧
      ∃ c, stored.value.valueAt read.id = some c ∧ c.isLiteral = true ∧ ∃ l ∈ c.literals, held 0 = .literal l := by
  obtain ⟨stored, desk', c, h, hc, hone⟩ := Analysis.exists_of_inspected (content 0 (.inl rfl))
  obtain ⟨c', hc', contains⟩ := valueContent_reads .clean h (by decide +kernel) (by decide +kernel) (by decide +kernel)
    rfl rfl (reached _ 0) (emits steady)
  obtain rfl := Option.some.inj (hc.symm.trans hc')
  have literal : c.isLiteral = true := by
    rw [show c = _ from hone]
    decide
  exact ⟨stored, desk', h, c, hc, literal, contains literal⟩

open Reindexed in
/-- If the index is another one then seven is read, but the answer has one. -/
theorem valueContent_misreads :
    ∃ stored desk', (Session.bare.valueContent (graph 1) Config.usual).run Desk.clean = (.ok stored, desk') ∧
      (graph 1).graph.Valid ∧ (graph 1).graph.OverArray ∧ (graph 1).graph.DistinctIds ∧
        Config.usual.pointsToUse = .complete ∧ Config.usual.usesCopies = false ∧ Config.usual.calls.handling = .none ∧
          ∃ b op ops mem, Reached (Ω := Empty) anyRead (graph 1).graph b (op :: ops) mem ∧
            Emits anyRead op mem ⟨read, .datum (.literal (.integer 7))⟩ ∧
              ∃ c, stored.value.valueAt read.id = some c ∧ c.isLiteral = true ∧ Literal.integer 7 ∉ c.literals := by
  obtain ⟨stored, desk', c, h, hc, hone⟩ := Analysis.exists_of_inspected (content 1 (.inr rfl))
  have seven : held 1 = .literal (.integer 7) := by simp [held, position, cells]
  refine ⟨stored, desk', h, by decide +kernel, by decide +kernel, by decide +kernel, rfl, rfl, rfl, _, _, _, _,
    reached _ 1, seven ▸ emits trivial, c, hc, ?_, ?_⟩
  · rw [show c = _ from hone]
    decide
  · rw [show c = _ from hone]
    decide +kernel

end Arrays

end Dataflow
