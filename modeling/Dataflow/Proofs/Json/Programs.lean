import Mathlib.Data.List.Induction
import Dataflow.Config.Json
import Dataflow.Program.Json
import Dataflow.Proofs.Json.Operations
import Dataflow.Taint.Json

/-!
# Programs and configurations are restored

A program is written as the list of its bodies, and read by filing each body under its method. The list that was
written has one body for each method; a list from elsewhere may have several, of which the last one stays.

## The notions

* `Json.Restores`: what is read has a property, and of what has it reading undoes writing.
* `Program.Holds`: the types and the bodies that a value lists.

## What is proved

A graph that passes the rules of graphs is restored, because the check that it must pass when it is read is that of
these rules (`Graph.ofJson_toJson`). Every taint configuration is restored, and every configuration of an analysis without
a filter; a filter has no JSON form and is lost (`Config.ofJson_toJson`). Programs are restored, and so are configurations
(`json_restores_programs`).
-/

namespace Dataflow

open Json (asOption ofOption asList ofList asOption_ofOption asList_ofList)

/-- What is read has the property, and reading undoes writing for all values that have it. -/
def Json.Restores {α : Type} (P : α → Prop) (read : Json → Decoded α) (write : α → Json) : Prop :=
  (∀ x, P x → read (write x) = .ok x) ∧ ∀ j x, read j = .ok x → P x ∧ read (write x) = .ok x

theorem Json.Restores.intro {α : Type} {P : α → Prop} {read : Json → Decoded α} {write : α → Json}
    (restored : ∀ x, P x → read (write x) = .ok x) (made : ∀ j x, read j = .ok x → P x) : Restores P read write :=
  ⟨restored, fun j x h => ⟨made j x h, restored x (made j x h)⟩⟩

/-! ### Configurations of analyses -/

@[simp]
theorem CallHandling.ofJson_toJson (h : CallHandling) : ofJson h.toJson = .ok h := by
  cases h <;> rfl

@[simp]
theorem PointsToUse.ofJson_toJson (u : PointsToUse) : ofJson u.toJson = .ok u := by
  cases u <;> rfl

@[simp]
theorem CallConfig.ofJson_toJson (c : CallConfig) : ofJson c.toJson = .ok c := by
  simp [ofJson, toJson]

/-- A configuration is restored without its filter. -/
theorem Config.ofJson_toJson (c : Config) : ofJson c.toJson = .ok { c with filter := none } := by
  simp [ofJson, toJson]

theorem Config.filter_of_ofJson {j : Json} {c : Config} (h : ofJson j = .ok c) : c.filter = none := by
  obtain ⟨fields, -, h⟩ := Decoded.of_bind_eq_ok h
  split at h
  · obtain ⟨calls, -, h⟩ := Decoded.of_bind_eq_ok h
    obtain ⟨pointsToUse, -, h⟩ := Decoded.of_bind_eq_ok h
    obtain ⟨usesCopies, -, h⟩ := Decoded.of_bind_eq_ok h
    obtain ⟨pessimistic, -, h⟩ := Decoded.of_bind_eq_ok h
    obtain ⟨visits, -, h⟩ := Decoded.of_bind_eq_ok h
    cases h
    rfl
  · cases h

/-! ### Taint configurations -/

@[simp]
theorem SourceRule.ofJson_toJson (r : SourceRule) : ofJson r.toJson = .ok r := by
  cases r <;> simp [ofJson, toJson, Json.isSound, Json.membersSound, split, namesOfJson]

@[simp]
theorem SanitizerRule.ofJson_toJson (r : SanitizerRule) : ofJson r.toJson = .ok r := by
  simp [ofJson, toJson]

@[simp]
theorem SinkRule.ofJson_toJson (r : SinkRule) : ofJson r.toJson = .ok r := by
  have parameters := asList_ofList (l := r.parameters) fun n _ => Json.asUInt32_ofUInt32 n
  simp [ofJson, toJson, parameters]

@[simp]
theorem TaintConfig.ofJson_toJson (c : TaintConfig) : ofJson c.toJson = .ok c := by
  have sources := asList_ofList (l := c.sources) fun r _ => r.ofJson_toJson
  have sanitizers := asList_ofList (l := c.sanitizers) fun r _ => r.ofJson_toJson
  have sinks := asList_ofList (l := c.sinks) fun r _ => r.ofJson_toJson
  simp [ofJson, toJson, sources, sanitizers, sinks]

/-! ### Graphs -/

@[simp]
theorem BlockId.ofJson_toJson (b : BlockId) : ofJson b.toJson = .ok b := by
  simp [ofJson, toJson]

@[simp]
theorem BlockKind.ofJson_toJson (k : BlockKind) : ofJson k.toJson = .ok k := by
  cases k <;> rfl

@[simp]
theorem BranchKind.ofJson_toJson (k : BranchKind) : ofJson k.toJson = .ok k := by
  cases k <;> rfl

@[simp]
theorem Branch.ofJson_toJson (b : Branch) : ofJson b.toJson = .ok b := by
  simp [ofJson, toJson]

@[simp]
theorem Symbol.asList_toJson (l : List Symbol) : asList ofJson (ofList toJson l) = .ok l :=
  asList_ofList fun s _ => s.ofJson_toJson

@[simp]
theorem Block.ofJson_toJson (b : Block) : ofJson b.toJson = .ok b := by
  have operations := asList_ofList (l := b.operations) fun op _ => op.ofJson_toJson
  have condition := asOption_ofOption (o := b.condition) fun op _ => ⟨op.ofJson_toJson, op.toJson_ne_null⟩
  have branches := asList_ofList (l := b.branches) fun e _ => e.ofJson_toJson
  simp [ofJson, toJson, operations, condition, branches]

namespace Graph

theorem ofJson_toJson {g : Graph} (h : g.Valid) : ofJson g.toJson = .ok g := by
  have blocks := asList_ofList (l := g.blocks) fun b _ => b.ofJson_toJson
  have sound : ofBlocks? g.owner g.parameters g.blocks = .ok g := by
    unfold Valid at h
    rw [ofBlocks?, h]
  simp [ofJson, toJson, blocks, sound, Except.mapError]

/-- Only graphs that pass the rules are read. -/
theorem valid_of_ofJson {j : Json} {g : Graph} (h : ofJson j = .ok g) : g.Valid := by
  obtain ⟨fields, -, h⟩ := Decoded.of_bind_eq_ok h
  split at h
  · obtain ⟨owner, -, h⟩ := Decoded.of_bind_eq_ok h
    obtain ⟨parameters, -, h⟩ := Decoded.of_bind_eq_ok h
    obtain ⟨blocks, -, h⟩ := Decoded.of_bind_eq_ok h
    cases made : ofBlocks? owner parameters blocks with
    | error e =>
      rw [made] at h
      cases h
    | ok g' =>
      rw [made] at h
      cases h
      exact valid_of_ofBlocks? made
  · cases h

end Graph

/-! ### Programs -/

/-- The fields of a record of two that is written as an array. -/
theorem Json.fields_array_pair {first second : String} {items : List Json} (short : items.length ≤ 2) :
    fields [first, second] (array items) = .ok [items[0]?, items[1]?] := by
  rw [fields, List.length_cons, List.length_singleton, if_pos short]
  rcases items with _ | ⟨a, _ | ⟨b, _ | ⟨c, items⟩⟩⟩
  · rfl
  · rfl
  · rfl
  · simp only [List.length_cons] at short
    omega

namespace Program

variable {types : List TypeRef} {bodies : List Graph}

theorem body?_addMethod (p : Program) (g : Graph) (m : Symbol) :
    (p.addMethod g).body? m = if g.owner = m then some g else p.body? m := by
  split
  · rename_i same
    subst same
    exact FinMap.find?_insert_self _ _ _
  · rename_i other
    exact FinMap.find?_insert_ne _ _ fun same => other same.symm

theorem ofGraphs_concat (g : Graph) : ofGraphs types (bodies ++ [g]) = (ofGraphs types bodies).addMethod g := by
  rw [ofGraphs, List.map_append, List.map_singleton, FinMap.ofList_concat]
  rfl

/-- Of the bodies of a method the last one stays. -/
theorem body?_ofGraphs (m : Symbol) :
    (ofGraphs types bodies).body? m = (bodies.filter fun g => g.owner = m).getLast? := by
  induction bodies using List.reverseRecOn with
  | nil => exact FinMap.find?_empty m
  | append_singleton bodies g ih =>
    rw [ofGraphs_concat, body?_addMethod, ih, List.filter_append, List.filter_singleton]
    by_cases same : g.owner = m <;> simp [same]

theorem valid_ofGraphs (h : ∀ g ∈ bodies, g.Valid) : (ofGraphs types bodies).Valid := by
  intro m g hg
  rw [body?_ofGraphs] at hg
  obtain ⟨hmem, howner⟩ := List.mem_filter.1 (List.mem_of_getLast? hg)
  exact ⟨of_decide_eq_true howner, h g hmem⟩

theorem mem_graphs {p : Program} {g : Graph} : g ∈ p.graphs ↔ ∃ m, p.body? m = some g := by
  rw [graphs, FinMap.values, List.mem_map]
  constructor
  · rintro ⟨⟨m, g⟩, h, rfl⟩
    exact ⟨m, FinMap.mem_entries.1 h⟩
  · rintro ⟨m, h⟩
    exact ⟨(m, g), FinMap.mem_entries.2 h, rfl⟩

/-- A program whose bodies are filed under their methods is made of its types and bodies. -/
theorem ofGraphs_graphs {p : Program} (h : p.Valid) : ofGraphs p.types p.graphs = p := by
  have found (m : Symbol) : (ofGraphs p.types p.graphs).body? m = p.body? m := by
    rw [body?_ofGraphs]
    cases hm : p.body? m with
    | none =>
      rw [List.getLast?_eq_none_iff, List.filter_eq_nil_iff]
      intro g hg howner
      obtain ⟨n, hn⟩ := mem_graphs.1 hg
      rw [← of_decide_eq_true howner, (h n g hn).1, hn] at hm
      cases hm
    | some g =>
      -- the bodies of the method are one and the same
      have only : ∀ g' ∈ p.graphs.filter fun g => g.owner = m, g' = g := by
        intro g' hg'
        obtain ⟨hmem, howner⟩ := List.mem_filter.1 hg'
        obtain ⟨n, hn⟩ := mem_graphs.1 hmem
        rw [← (h n g' hn).1, of_decide_eq_true howner, hm] at hn
        exact (Option.some.inj hn).symm
      have there : g ∈ p.graphs.filter fun g => g.owner = m :=
        List.mem_filter.2 ⟨mem_graphs.2 ⟨m, hm⟩, decide_eq_true (h m g hm).1⟩
      rw [List.getLast?_eq_some_getLast (List.ne_nil_of_mem there)]
      exact congrArg some (only _ (List.getLast_mem _))
  cases p
  exact congrArg (Program.mk _) (FinMap.ext found)

/-- The types and the bodies that a value lists, in their order. -/
def Holds (j : Json) (types : List TypeRef) (bodies : List Graph) : Prop :=
  ∃ t b, j.fields ["types", "methods"] = .ok [t, b] ∧ Json.orElse [] (asList TypeRef.ofJson) t = .ok types ∧
    Json.orElse [] (asList Graph.ofJson) b = .ok bodies

theorem Holds.valid {j : Json} (h : Holds j types bodies) : ∀ g ∈ bodies, g.Valid := by
  obtain ⟨-, b, -, -, hb⟩ := h
  cases b with
  | none =>
    cases hb
    exact fun _ hg => nomatch hg
  | some b =>
    cases b with
    | array items => exact Decoded.forall_of_mapM_eq_ok (fun _ _ => Graph.valid_of_ofJson) hb
    | _ => cases hb

/-- A program is read from what lists its types and bodies, in whichever order these are read. -/
theorem ofJson_eq_ok_iff {j : Json} {p : Program} :
    ofJson j = .ok p ↔ ∃ types bodies, Holds j types bodies ∧ p = ofGraphs types bodies := by
  constructor
  · intro h
    cases j with
    | array items =>
      obtain ⟨types, htypes, h⟩ := Decoded.of_bind_eq_ok h
      obtain ⟨bodies, hbodies, h⟩ := Decoded.of_bind_eq_ok h
      split at h
      · rename_i short
        cases h
        exact ⟨types, bodies, ⟨_, _, Json.fields_array_pair short, htypes, hbodies⟩, rfl⟩
      · cases h
    | object ms =>
      obtain ⟨fields, hfields, h⟩ := Decoded.of_bind_eq_ok h
      split at h
      · obtain ⟨bodies, hbodies, h⟩ := Decoded.of_bind_eq_ok h
        obtain ⟨types, htypes, h⟩ := Decoded.of_bind_eq_ok h
        cases h
        exact ⟨types, bodies, ⟨_, _, hfields, htypes, hbodies⟩, rfl⟩
      · cases h
    | _ => cases h
  · rintro ⟨types, bodies, ⟨t, b, hfields, htypes, hbodies⟩, rfl⟩
    cases j with
    | array items =>
      by_cases short : items.length ≤ 2
      · rw [Json.fields_array_pair short] at hfields
        cases hfields
        simp [ofJson, htypes, hbodies, short]
      · simp [Json.fields, short] at hfields
    | object ms => simp [ofJson, Json.members, hfields, htypes, hbodies]
    | _ => cases hfields

theorem ofJson_toJson {p : Program} (h : p.Valid) : ofJson p.toJson = .ok p := by
  have holds : Holds p.toJson p.types p.graphs := by
    refine ⟨_, _, Json.fields_object rfl (by decide), ?_, ?_⟩
    · exact asList_ofList fun t _ => t.ofJson_toJson
    · refine asList_ofList fun g hg => Graph.ofJson_toJson ?_
      obtain ⟨m, hm⟩ := mem_graphs.1 hg
      exact (h m g hm).2
  exact ofJson_eq_ok_iff.2 ⟨_, _, holds, (ofGraphs_graphs h).symm⟩

end Program

/-- **Reading undoes writing.** Each program whose bodies pass the rules of graphs is restored, and so is what is read
from any value; of the bodies that the value lists for a method the program has the last one. Taint configurations are
restored, and so are configurations of analyses that have no filter, which are all that are read. -/
theorem json_restores_programs :
    (Json.Restores Program.Valid Program.ofJson Program.toJson ∧
      ∀ j p, Program.ofJson j = .ok p → ∃ types bodies, Program.Holds j types bodies ∧ p.types = types ∧
        ∀ m, p.body? m = (bodies.filter fun g => g.owner = m).getLast?) ∧
    Json.Restores (fun _ => True) TaintConfig.ofJson TaintConfig.toJson ∧
    Json.Restores (fun c => c.filter = none) Config.ofJson Config.toJson := by
  refine ⟨⟨.intro (fun _ => Program.ofJson_toJson) fun j p h => ?_, fun j p h => ?_⟩,
    .intro (fun c _ => c.ofJson_toJson) fun _ _ _ => trivial,
    .intro (fun c h => ?_) fun _ _ => Config.filter_of_ofJson⟩
  · obtain ⟨types, bodies, holds, rfl⟩ := Program.ofJson_eq_ok_iff.1 h
    exact Program.valid_ofGraphs holds.valid
  · obtain ⟨types, bodies, holds, rfl⟩ := Program.ofJson_eq_ok_iff.1 h
    exact ⟨types, bodies, holds, rfl, fun m => Program.body?_ofGraphs m⟩
  · obtain ⟨calls, use, copies, pessimistic, visits, filter⟩ := c
    obtain rfl : filter = none := h
    exact Config.ofJson_toJson _

namespace Restored

/-- A method with two bodies. -/
def main : Symbol := .method "C" "main" none

/-- The body that does nothing. -/
def idle : Graph := ⟨main, [], [{ Block.bare (.ofNat 0) .entry with branches := [⟨.ofNat 1, .regular⟩] },
  .bare (.ofNat 1) .exit]⟩

/-- The body that returns what a call with one argument gives. -/
def calling : Graph :=
  let call : Operation := .invocation ⟨⟨1⟩, none, ⟨3, 9⟩⟩ (.method "C" "f" none) none
    [⟨none, .literal ⟨⟨0⟩, some (.value "int"), ⟨3, 11⟩⟩ (.integer 7), .value⟩]
  { idle with blocks := [{ Block.bare (.ofNat 0) .entry with
    operations := [.ret ⟨⟨2⟩, none, ⟨3, 2⟩⟩ (some call)], branches := [⟨.ofNat 1, .regular⟩] },
    .bare (.ofNat 1) .exit] }

/-- The program that is read from a list of both bodies. -/
def program : Program := .ofGraphs [.reference "C"] [idle, calling]

end Restored

/-- The last body is kept, and comes back with its predecessors. -/
theorem json_restores_programs_calling :
    Restored.program.Valid ∧ Program.ofJson Restored.program.toJson = .ok Restored.program ∧
      Restored.program.body? Restored.main = some Restored.calling ∧
      Restored.calling.predecessors (.ofNat 1) = [.ofNat 0] := by
  have valid : Restored.program.Valid := Program.valid_ofGraphs (by decide)
  refine ⟨valid, json_restores_programs.1.1.1 _ valid, ?_, by decide⟩
  rw [Restored.program, Program.body?_ofGraphs]
  rfl

end Dataflow
