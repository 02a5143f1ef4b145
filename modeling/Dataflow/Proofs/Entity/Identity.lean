import Dataflow.Proofs.Entity.Resolver

/-!
# Which names are the same

An entity has a root, positions, an owner and a type. Everything but the type says which storage it names. The type of a
variable, a receiver or a field belongs to its symbol; that of a temporary or an element is the one that the operation
declares by which the entity is named.

A resolver remembers the names that it gave to anything but temporaries, refusals included. What a temporary stands for
changes in between, and so do the owners and the positions of fields and elements.

## The notions

* `Entity.Coincides`: two entities name the same storage.
* `Resolver.Call`: what a resolver is called for, and `Resolver.answerAfter` what it answers after some calls.
* `Operation.Unambiguous`: no two operations have one identifier.
* `Resolver.answersTo`: what a resolver answers to some calls, one answer for each operation that it is to resolve.
* `Resolver.namesFor`: the names that these operations have at that moment, with the bindings that there are then.
* `Resolver.forgetful`: the resolver without what it remembers.

## What is proved

Entities that coincide are the same exactly if their types are; so a temporary is read by the name under which it was
stored into exactly if the reference declares the type of the capture or the temporary stands for other storage, and two
references to one slot of an array resolve to one entity exactly if they declare the same type
(`Resolver.names_identical_iff`).

By induction on the calls, a resolver that remembers only what it would answer anew answers as if it remembered nothing
(`Resolver.answersTo_eq_namesFor`). So a resolver that starts without memory does, as long as no two operations have one
identifier (`Resolver.memory_unseen`).
-/

namespace Dataflow

/-! ### Entities -/

/-- What an entity is rooted at. -/
inductive EntityRoot where
  /-- A local or a parameter of a method. -/
  | localVar (symbol method : Symbol)
  /-- A temporary of a method. -/
  | temporary (capture : CaptureId) (method : Symbol)
  /-- The receiver of a method. -/
  | receiver (method : Symbol)
  /-- A field. -/
  | member (field : Symbol)
  /-- A slot of an array. -/
  | element
  deriving DecidableEq

namespace Entity

variable {a b : Entity}

/-- What the entity is rooted at. -/
def root : Entity → EntityRoot
  | localVar symbol method => .localVar symbol method
  | temporary capture method _ => .temporary capture method
  | receiver method => .receiver method
  | member field _ => .member field
  | element .. => .element

/-- Two entities have the same root, the same positions and the same owner. -/
def Coincides (a b : Entity) : Prop := a.root = b.root ∧ a.indices = b.indices ∧ a.owner = b.owner

instance (a b : Entity) : Decidable (a.Coincides b) := inferInstanceAs (Decidable (_ ∧ _ ∧ _))

/-- Whether the type is the one that an operation declares. -/
def isTypedByUse : Entity → Bool
  | temporary .. | element .. => true
  | localVar .. | receiver _ | member .. => false

/-- Symbols have one type. -/
theorem type_eq_of_coincides (h : a.Coincides b) (hu : a.isTypedByUse = false) : a.type = b.type := by
  obtain ⟨root, -, -⟩ := h
  cases a with
  | temporary | element => cases hu
  | localVar | receiver | member => cases b <;> simp_all [Entity.root, Entity.type]

theorem eq_iff_coincides (a b : Entity) : a = b ↔ a.Coincides b ∧ a.type = b.type := by
  constructor
  · rintro rfl
    exact ⟨⟨rfl, rfl, rfl⟩, rfl⟩
  · rintro ⟨⟨root, indices, owner⟩, type⟩
    cases a <;> cases b <;> simp_all [Entity.root, Entity.indices, Entity.owner, Entity.type]

theorem eq_iff_coincides_of_symbol (b : Entity) (hu : a.isTypedByUse = false) : a = b ↔ a.Coincides b := by
  rw [eq_iff_coincides, and_iff_left_of_imp fun h => type_eq_of_coincides h hu]

end Entity

/-! ### Calls -/

/-- Of some operations no two have one identifier. -/
def Operation.Unambiguous (ops : List Operation) : Prop := ∀ a ∈ ops, ∀ b ∈ ops, a.id = b.id → a = b

namespace Resolver

/-- What a resolver is called for. -/
inductive Call where
  /-- A temporary is to stand for storage. -/
  | bind (capture : CaptureId) (target : Entity)
  /-- An operation is to be resolved. -/
  | resolve (op : Operation) (owner : Option PointsTo) (indices : List ElementIndex)

/-- The resolver after a call. -/
def called (r : Resolver) : Call → Resolver
  | .bind capture target => r.bind capture target
  | .resolve op owner indices => (r.resolve op owner indices).2

/-- The resolver after some calls. -/
def after (r : Resolver) (calls : List Call) : Resolver := calls.foldl called r

/-- What the resolver answers for an operation after some calls. -/
def answerAfter (r : Resolver) (calls : List Call) (op : Operation) (owner : Option PointsTo)
    (indices : List ElementIndex) : Option Entity :=
  ((r.after calls).resolve op owner indices).1

/-- The operations that some calls are to resolve. -/
def asked (calls : List Call) : List Operation :=
  calls.filterMap fun
    | .resolve op _ _ => some op
    | .bind .. => none

variable {r : Resolver} {ops : List Operation}

theorem after_append (r : Resolver) (before later : List Call) :
    r.after (before ++ later) = (r.after before).after later :=
  List.foldl_append

/-- Calls change neither the method nor what is tracked. -/
theorem after_steady (r : Resolver) (calls : List Call) :
    (r.after calls).method = r.method ∧ (r.after calls).tracksUnknown = r.tracksUnknown := by
  induction calls generalizing r with
  | nil => exact ⟨rfl, rfl⟩
  | cons call calls ih =>
    obtain ⟨method, tracks⟩ := ih (r.called call)
    cases call with
    | bind c target => exact ⟨method, tracks⟩
    | resolve op owner indices =>
      exact ⟨method.trans (resolve_method r op owner indices), tracks.trans (resolve_tracksUnknown r op owner indices)⟩

/-- A temporary stands for what it did unless a call lets it stand for something else. -/
theorem find?_bindings_after {c : CaptureId} {calls : List Call} (h : ∀ target, Call.bind c target ∉ calls) (r : Resolver) :
    (r.after calls).bindings.find? c = r.bindings.find? c := by
  induction calls generalizing r with
  | nil => rfl
  | cons call calls ih =>
    have rest : ∀ target, Call.bind c target ∉ calls := fun target ht => h target (List.mem_cons_of_mem _ ht)
    refine (ih rest (r.called call)).trans ?_
    cases call with
    | bind d target =>
      have different : c ≠ d := by
        rintro rfl
        exact h target List.mem_cons_self
      exact FinMap.find?_insert_ne r.bindings target different
    | resolve op owner indices => exact congrArg (·.find? c) (resolve_bindings r op owner indices)

/-- Calls that are unambiguous leave nothing to remember that would be answered differently. -/
theorem Remembers.after (h : r.Remembers ops) (clear : Operation.Unambiguous ops) {calls : List Call}
    (hcalls : asked calls ⊆ ops) : (r.after calls).Remembers ops := by
  induction calls generalizing r with
  | nil => exact h
  | cons call calls ih =>
    cases call with
    | bind c target => exact ih (h.bind c target) hcalls
    | resolve op owner indices =>
      obtain ⟨hop, rest⟩ := List.cons_subset.1 hcalls
      exact ih (Remembers.resolve h hop (fun o ho => clear o ho op hop) owner indices).2 rest

/-- If identifiers are unambiguous, an answer does not depend on what is remembered. -/
theorem answerAfter_eq {method : Symbol} {tracks : Bool} {calls : List Call} {op : Operation}
    (clear : Operation.Unambiguous ops) (hcalls : asked calls ⊆ ops) (hop : op ∈ ops) (owner : Option PointsTo)
    (indices : List ElementIndex) : (start method tracks).answerAfter calls op owner indices =
      ((start method tracks).after calls).entity? op owner indices :=
  (((remembers_start method tracks ops).after clear hcalls).resolve hop (fun o ho => clear o ho op hop) owner indices).1

/-! ### Temporaries and elements -/

/-- What a temporary is called at two moments between which it is not bound. -/
theorem temporary_eq_iff {r r' : Resolver} {c : CaptureId} (method : r'.method = r.method)
    (same : r'.bindings.find? c = r.bindings.find? c) (t t' : Option TypeRef) :
    r'.temporary c t' = r.temporary c t ↔ (r.bindings.find? c).isSome = true ∨ t' = t := by
  unfold temporary
  rw [same, method]
  cases r.bindings.find? c <;> simp

/-- An element that has a name is called after its array, its positions and the type that the operation declares. -/
theorem entity?_elementRef_after {r : Resolver} {owner : Option PointsTo} {array : PointsTo}
    (named : r.owner? owner = some array) (calls : List Call) (i : OperationInfo) (a : Operation) (is : List Operation)
    (indices : List ElementIndex) :
    (r.after calls).entity? (.elementRef i a is) owner indices = some (.element array indices i.type) := by
  have same : (r.after calls).owner? owner = some array := by
    rw [← named]
    unfold owner?
    rw [(after_steady r calls).2]
  exact congrArg (Option.map fun array => Entity.element array indices i.type) same

/-- A reference to a temporary resolves to what was stored into exactly if the temporary is bound or the types are the
same. -/
theorem read_eq_stored_iff (r : Resolver) {c : CaptureId} {between : List Call} (h : ∀ target, Call.bind c target ∉ between)
    (i j : OperationInfo) (value : Operation) :
    ∃ stored, r.answerAfter [] (.capture i c value false) none [] = some stored ∧
      (r.answerAfter (.resolve (.capture i c value false) none [] :: between) (.captureRef j c) none [] = some stored ↔
        (r.bindings.find? c).isSome = true ∨ j.type = i.type) := by
  refine ⟨r.temporary c i.type, rfl, ?_⟩
  -- a capture is resolved anew each time, so nothing is remembered of it
  have read : r.answerAfter (.resolve (.capture i c value false) none [] :: between) (.captureRef j c) none [] =
      some ((r.after between).temporary c j.type) := rfl
  rw [read, Option.some.injEq]
  exact temporary_eq_iff (after_steady r between).1 (find?_bindings_after h r) i.type j.type

/-- Two references to one slot of an array resolve to one entity exactly if the types are the same. -/
theorem slots_eq_iff {method : Symbol} {tracks : Bool} {owner owner' : Option PointsTo} {array : PointsTo}
    (named : (start method tracks).owner? owner = some array) (named' : (start method tracks).owner? owner' = some array)
    {before later : List Call} {i j : OperationInfo} {a a' : Operation} {is is' : List Operation}
    (clear : Operation.Unambiguous ops) (hbefore : asked before ⊆ ops) (hlater : asked later ⊆ ops)
    (hfirst : .elementRef i a is ∈ ops) (hsecond : .elementRef j a' is' ∈ ops) (indices : List ElementIndex) :
    ∃ slot, (start method tracks).answerAfter before (.elementRef i a is) owner indices = some slot ∧
      ((start method tracks).answerAfter later (.elementRef j a' is') owner' indices = some slot ↔
        j.type = i.type) := by
  refine ⟨.element array indices i.type, ?_, ?_⟩
  · rw [answerAfter_eq clear hbefore hfirst]
    exact entity?_elementRef_after named before i a is indices
  · rw [answerAfter_eq clear hlater hsecond, entity?_elementRef_after named' later, Option.some.injEq]
    simp

/-! ### Names -/

/-- **When names are the same.** Entities that coincide are the same exactly if their types are, which those of symbols
always are. A reference to a temporary resolves to what the capture of a value stored into, as long as the temporary is
not bound in between, exactly if it declares the same type or the temporary was bound before. Two references to one
slot of an array, if its slots have names, resolve to one entity exactly if they declare the same type. -/
theorem names_identical_iff (method : Symbol) (tracks : Bool) :
    (∀ a b : Entity, (a = b ↔ a.Coincides b ∧ a.type = b.type) ∧
      (a.isTypedByUse = false → (a = b ↔ a.Coincides b))) ∧
    (∀ (before between : List Call) (c : CaptureId) (i j : OperationInfo) (value : Operation),
      (∀ target, Call.bind c target ∉ between) →
        ∃ stored, (start method tracks).answerAfter before (.capture i c value false) none [] = some stored ∧
          ((start method tracks).answerAfter (before ++ .resolve (.capture i c value false) none [] :: between)
            (.captureRef j c) none [] = some stored ↔
              (((start method tracks).after before).bindings.find? c).isSome = true ∨ j.type = i.type)) ∧
    (∀ (before between : List Call) (i j : OperationInfo) (a a' : Operation) (is is' : List Operation)
      (owner owner' : Option PointsTo) (array : PointsTo) (indices : List ElementIndex),
      (start method tracks).owner? owner = some array → (start method tracks).owner? owner' = some array →
      Operation.Unambiguous
        (.elementRef j a' is' :: asked (before ++ .resolve (.elementRef i a is) owner indices :: between)) →
        ∃ slot, (start method tracks).answerAfter before (.elementRef i a is) owner indices = some slot ∧
          ((start method tracks).answerAfter (before ++ .resolve (.elementRef i a is) owner indices :: between)
            (.elementRef j a' is') owner' indices = some slot ↔ j.type = i.type)) := by
  refine ⟨fun a b => ⟨Entity.eq_iff_coincides a b, Entity.eq_iff_coincides_of_symbol b⟩, ?_, ?_⟩
  · intro before between c i j value unbound
    obtain ⟨stored, hstored, read⟩ := read_eq_stored_iff ((start method tracks).after before) unbound i j value
    refine ⟨stored, hstored, ?_⟩
    rw [← read]
    unfold answerAfter
    rw [after_append]
  · intro before between i j a a' is is' owner owner' array indices named named' clear
    refine slots_eq_iff named named' clear (fun op hop => ?_) (List.subset_cons_self _ _) ?_ List.mem_cons_self indices
    · simp only [asked, List.filterMap_append, List.mem_cons, List.mem_append]
      exact .inr (.inl hop)
    · simp [asked]

namespace TypedUses

/-- The method that uses a temporary and an array. -/
def main : Symbol := .method "C" "main" none

/-- A type that operations declare. -/
def int : TypeRef := .value "int"

/-- An operation that declares a type. -/
def declaring (id : UInt32) (type : Option TypeRef) : OperationInfo := ⟨⟨id⟩, type, ⟨0, 0⟩⟩

def one : Operation := .literal (declaring 0 (some int)) (.integer 1)

/-- A number is stored into the temporary. -/
def store : Operation := .capture (declaring 1 (some int)) ⟨0⟩ one false

/-- The temporary is read. -/
def read (type : Option TypeRef) : Operation := .captureRef (declaring 2 type) ⟨0⟩

/-- What the temporary is called. -/
def cell (type : Option TypeRef) : Entity := .temporary ⟨0⟩ main type

/-- The first slot of the array that a local variable held in the beginning. -/
def slot (id : UInt32) (type : Option TypeRef) : Operation :=
  .elementRef (declaring id type) (.localRef (declaring 3 none) (.localVar "a" none)) [.literal (declaring 4 none) (.integer 0)]

/-- The array. -/
def array : PointsTo := .known [.entity (.localVar (.localVar "a" none) main)] .maybeNull

end TypedUses

open TypedUses

/-- What reads the temporary as an `int` reads what was stored, and the slot of the array has another name as an `int`
than without a type. -/
theorem names_identical_declared :
    (start main false).answerAfter [.resolve store none []] (read (some int)) none [] =
        (start main false).answerAfter [] store none [] ∧
      (start main false).answerAfter [.resolve (slot 5 none) (some array) [.constant 0]] (slot 6 (some int)) (some array)
          [.constant 0] ≠
        (start main false).answerAfter [] (slot 5 none) (some array) [.constant 0] := by
  obtain ⟨-, temporaries, slots⟩ := names_identical_iff main false
  obtain ⟨stored, hstored, same⟩ := temporaries [] [] ⟨0⟩ (declaring 1 (some int)) (declaring 2 (some int)) one
    (fun _ h => by cases h)
  have clear : Operation.Unambiguous [slot 6 (some int), slot 5 none] := by
    intro a ha b hb h
    simp only [List.mem_cons, List.not_mem_nil, or_false] at ha hb
    rcases ha with rfl | rfl <;> rcases hb with rfl | rfl <;> first | rfl | cases h
  obtain ⟨named, hnamed, identical⟩ := slots [] [] (declaring 5 none) (declaring 6 (some int)) _ _ _ _ (some array)
    (some array) array [.constant 0] rfl rfl clear
  refine ⟨(same.2 (.inr rfl)).trans hstored.symm, fun h => ?_⟩
  cases identical.1 (h.trans hnamed)

/-- What reads the temporary without a type gives it another name, which has the same root, positions and owner. -/
theorem not_identical_undeclared :
    (start main false).answerAfter [] store none [] = some (cell (some int)) ∧
      (start main false).answerAfter [.resolve store none []] (read none) none [] = some (cell none) ∧
      (cell (some int)).Coincides (cell none) ∧ cell (some int) ≠ cell none := by
  refine ⟨rfl, rfl, ⟨rfl, rfl, rfl⟩, fun same => ?_⟩
  cases same

/-! ### Memory -/

/-- What a resolver answers to some calls, one answer for each operation that it is to resolve. -/
def answersTo (r : Resolver) : List Call → List (Option Entity)
  | [] => []
  | .bind capture target :: calls => (r.bind capture target).answersTo calls
  | .resolve op owner indices :: calls =>
    (r.resolve op owner indices).1 :: (r.resolve op owner indices).2.answersTo calls

/-- The names that the operations have when they are to be resolved: bindings count from then on, and nothing is
remembered. -/
def namesFor (r : Resolver) : List Call → List (Option Entity)
  | [] => []
  | .bind capture target :: calls => (r.bind capture target).namesFor calls
  | .resolve op owner indices :: calls => r.entity? op owner indices :: r.namesFor calls

/-- The resolver without what it remembers. -/
def forgetful (r : Resolver) : Resolver := { r with answers := [] }

/-- What is remembered plays no part in a name. -/
theorem entity?_forgetful (r : Resolver) (op : Operation) (owner : Option PointsTo) (indices : List ElementIndex) :
    r.forgetful.entity? op owner indices = r.entity? op owner indices := by
  cases op <;> rfl

/-- To resolve an operation changes nothing but what is remembered. -/
theorem forgetful_resolve (r : Resolver) (op : Operation) (owner : Option PointsTo) (indices : List ElementIndex) :
    (r.resolve op owner indices).2.forgetful = r.forgetful := by
  obtain ⟨answers, h⟩ := exists_answers_resolve r op owner indices
  rw [h]
  rfl

/-- A resolver that remembers only what it would answer anew answers as if it remembered nothing. -/
theorem answersTo_eq_namesFor {r : Resolver} {ops : List Operation} (h : r.Remembers ops)
    (clear : Operation.Unambiguous ops) {calls : List Call} (hcalls : asked calls ⊆ ops) :
    r.answersTo calls = r.forgetful.namesFor calls := by
  induction calls generalizing r with
  | nil => rfl
  | cons call calls ih =>
    cases call with
    | bind capture target => exact ih (h.bind capture target) hcalls
    | resolve op owner indices =>
      obtain ⟨hop, rest⟩ := List.cons_subset.1 hcalls
      obtain ⟨answer, remembers⟩ := Remembers.resolve h hop (fun o ho => clear o ho op hop) owner indices
      rw [answersTo, namesFor, answer, ih remembers rest, forgetful_resolve, entity?_forgetful]

/-- **Memory is not seen.** If no two of the operations that a resolver is called for have one identifier, it answers each
call with the name that the operation has at that moment, with the bindings that there are then. -/
theorem memory_unseen (method : Symbol) (tracks : Bool) (calls : List Call)
    (clear : Operation.Unambiguous (asked calls)) :
    (start method tracks).answersTo calls = (start method tracks).namesFor calls :=
  answersTo_eq_namesFor (remembers_start method tracks _) clear (List.Subset.refl _)

namespace Rebound

open TypedUses

/-- A variable. -/
def x : Entity := .localVar (.localVar "x" none) main

/-- Another one. -/
def y : Entity := .localVar (.localVar "y" none) main

/-- The first slot of an array that is not known. -/
def askSlot : Call := .resolve (slot 5 none) none [.constant 0]

/-- A temporary is read. -/
def askRead : Call := .resolve (read none) none []

/-- The temporary stands for one variable, then for another, and the slot is asked for twice. -/
def calls : List Call := [askRead, askSlot, .bind ⟨0⟩ x, askRead, askSlot, .bind ⟨0⟩ y, askRead]

end Rebound

open TypedUses Rebound in
/-- The refusal to name the slot is remembered, and what the temporary stands for is not. -/
theorem memory_unseen_rebound : Operation.Unambiguous (asked Rebound.calls) ∧
    (start main false).answersTo Rebound.calls = [some (cell none), none, some x, none, some y] := by
  have ops : asked Rebound.calls = [read none, slot 5 none, read none, slot 5 none, read none] := rfl
  have clear : Operation.Unambiguous (asked Rebound.calls) := by
    intro a ha b hb h
    simp only [ops, List.mem_cons, List.not_mem_nil, or_false] at ha hb
    rcases ha with rfl | rfl | rfl | rfl | rfl <;> rcases hb with rfl | rfl | rfl | rfl | rfl <;> first | rfl | cases h
  exact ⟨clear, (memory_unseen main false Rebound.calls clear).trans rfl⟩

open TypedUses in
/-- An operation that has the identifier of another one is taken for it. -/
example : (start main false).answersTo
    [.resolve (.localRef (declaring 2 none) (.localVar "x" none)) none [],
      .resolve (.localRef (declaring 2 none) (.localVar "y" none)) none []] = [some Rebound.x, some Rebound.x] := rfl

end Resolver

end Dataflow
