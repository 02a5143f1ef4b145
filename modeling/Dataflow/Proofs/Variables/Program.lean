import Dataflow.Proofs.Operation.Subtree

/-!
# Programs over variables

A method body that works on its locals and parameters can be run on concrete values. Which
values there are, and what the operators and calls may make of them, depends on what one
wants to know; it is left to a `Meaning`. Everything else is fixed here: operands are
evaluated from left to right, an assignment changes one variable, a call may change the
variables that it gets by reference, and control follows any branch.

A `Store` gives values to variables. A local has none before it is assigned and after its
scope has ended; reading it then ends the run, which is why an evaluation is a relation.

## The relations

* `Step`: what an operation does once its operands are evaluated.
* `Eval` and `EvalAll`: an operation, or several of them in turn, are evaluated to the end.
* `Emits`: an operation is evaluated on the way, even if the evaluation around it gets stuck.
* `Reached`: control stands before some operations of a block.
-/

namespace Dataflow

/-! ### Operations on variables -/

namespace Operation

/-- The local or parameter that the operation names. -/
def symbol? : Operation → Option Symbol
  | localRef _ symbol | parameterRef _ symbol => some symbol
  | _ => none

/-- The operands whose values the operation takes. The target of an assignment and what a call
gets by reference are not read. -/
def evaluated : Operation → List Operation
  | assignment _ _ value => [value]
  | invocation _ _ receiver arguments =>
    receiver.toList ++ (arguments.filter fun a => !a.refKind.isByRef).map (·.value)
  | op => op.operands

theorem mem_operands_of_mem_evaluated {op o : Operation} (h : o ∈ op.evaluated) : o ∈ op.operands := by
  cases op with
  | assignment i target value =>
    obtain rfl := List.mem_singleton.1 h
    simp [operands]
  | invocation i method receiver arguments =>
    rcases List.mem_append.1 h with h | h
    · exact List.mem_append_left _ h
    · obtain ⟨a, ha, rfl⟩ := List.mem_map.1 h
      exact List.mem_append_right _ (List.mem_map.2 ⟨a, (List.mem_filter.1 ha).1, rfl⟩)
  | _ => exact h

/-- The variables that a call gets by reference. -/
def passedSymbols (arguments : List (Argument Operation)) : List Symbol :=
  (arguments.filter fun a => a.refKind.isByRef).filterMap (·.value.symbol?)

end Operation

/-- Which operations a body uses besides constants, variables, assignments to variables, binary
operators and returns. -/
structure Fragment where
  /-- Calls. -/
  calls : Bool
  /-- Variables that are passed to calls by reference. -/
  references : Bool
  /-- New objects. -/
  objects : Bool
  /-- New arrays. -/
  arrays : Bool
  /-- Conversions. -/
  conversions : Bool

namespace Fragment

/-- Bodies with calls, which may get variables by reference. -/
def withCalls : Fragment := ⟨true, true, false, false, false⟩

/-- Bodies with calls, which get values only, new objects and conversions. -/
def withValueCalls : Fragment := ⟨true, false, true, false, true⟩

/-- Bodies with new objects, new arrays and conversions. -/
def withObjects : Fragment := ⟨false, false, true, true, true⟩

end Fragment

/-- The operation itself, leaving its operands aside, is one of the fragment. -/
def Operation.isWithin (F : Fragment) : Operation → Bool
  | literal .. | localRef .. | parameterRef .. | binary .. | ret .. => true
  | assignment _ target _ => target.symbol?.isSome
  | invocation _ _ _ arguments =>
    F.calls && arguments.all fun a => !a.refKind.isByRef || F.references && a.value.symbol?.isSome
  | objectCreation .. => F.objects
  | arrayCreation .. => F.arrays
  | conversion .. => F.conversions
  | _ => false

namespace Graph

/-- The body uses only operations of the fragment. -/
def Within (F : Fragment) (g : Graph) : Prop := ∀ op ∈ Operation.subtrees g.operations, op.isWithin F = true

instance (F : Fragment) (g : Graph) : Decidable (g.Within F) := inferInstanceAs (Decidable (∀ op ∈ _, _))

end Graph

/-! ### Stores -/

/-- The values of the variables that have one. -/
abbrev Store (C : Type) := Symbol → Option C

namespace Store

variable {C : Type}

/-- The store with one variable changed. -/
def set (σ : Store C) (x : Symbol) (v : Option C) : Store C := fun y => if y = x then v else σ y

/-- The store without some variables. -/
def forgetAll (σ : Store C) (xs : List Symbol) : Store C := fun y => if y ∈ xs then none else σ y

/-- The second store differs from the first one at most in some variables, and takes a value
from none of them. -/
structure Overwritten (xs : List Symbol) (σ σ' : Store C) : Prop where
  /-- Other variables keep what they have. -/
  others : ∀ y, y ∉ xs → σ' y = σ y
  /-- A variable that had a value has one. -/
  values : ∀ y, (σ y).isSome → (σ' y).isSome

@[simp]
theorem set_self (σ : Store C) (x : Symbol) (v : Option C) : σ.set x v x = v := by
  simp [set]

theorem set_of_ne (σ : Store C) {x y : Symbol} (v : Option C) (h : y ≠ x) : σ.set x v y = σ y := by
  simp [set, h]

@[simp]
theorem forgetAll_nil (σ : Store C) : σ.forgetAll [] = σ := by
  funext y
  simp [forgetAll]

theorem forgetAll_cons (σ : Store C) (x : Symbol) (xs : List Symbol) :
    σ.forgetAll (x :: xs) = (σ.set x none).forgetAll xs := by
  funext y
  by_cases hx : y = x
  · simp [forgetAll, set, hx]
  · simp [forgetAll, set, hx]

end Store

/-! ### Meanings -/

/-- What operations may yield on concrete values. -/
structure Meaning (C : Type) where
  /-- A constant. -/
  literal : Literal → C → Prop
  /-- The result of an operator on two values. -/
  binary : Operation → BinaryOperator → C → C → C → Prop
  /-- The result of a conversion. -/
  conversion : Operation → C → C → Prop
  /-- A new object made from some values. -/
  creation : Operation → List C → C → Prop
  /-- A new array. -/
  array : Operation → C → Prop
  /-- The result of a call of a method. -/
  call : Symbol → C → Prop
  /-- What a parameter holds in the beginning. -/
  parameter : Symbol → C → Prop

variable {C : Type}

/-! ### Evaluation -/

/-- What an operation does to the store, and its value, once its operands are evaluated. The
results of the operands are given in their order. -/
inductive Step (M : Meaning C) : Operation → List (Option C) → Store C → Option C → Store C → Prop where
  /-- A constant. -/
  | literal {i : OperationInfo} {l : Literal} {σ : Store C} {v : C} :
      M.literal l v → Step M (.literal i l) [] σ (some v) σ
  /-- A local with a value. -/
  | localRef {i : OperationInfo} {x : Symbol} {σ : Store C} {v : C} :
      σ x = some v → Step M (.localRef i x) [] σ (some v) σ
  /-- A parameter with a value. -/
  | parameterRef {i : OperationInfo} {x : Symbol} {σ : Store C} {v : C} :
      σ x = some v → Step M (.parameterRef i x) [] σ (some v) σ
  /-- An assignment to a variable. -/
  | assignment {i : OperationInfo} {target value : Operation} {x : Symbol} {σ : Store C} {v : C} :
      target.symbol? = some x → Step M (.assignment i target value) [some v] σ (some v) (σ.set x (some v))
  /-- An operator. -/
  | binary {i : OperationInfo} {operator : BinaryOperator} {left right : Operation} {σ : Store C} {u v w : C} :
      M.binary (.binary i operator left right) operator u v w →
        Step M (.binary i operator left right) [some u, some v] σ (some w) σ
  /-- A conversion. -/
  | conversion {i : OperationInfo} {operand : Operation} {σ : Store C} {v w : C} :
      M.conversion (.conversion i operand) v w → Step M (.conversion i operand) [some v] σ (some w) σ
  /-- A new object. -/
  | creation {i : OperationInfo} {arguments : List (Argument Operation)} {vs : List C} {σ : Store C} {w : C} :
      M.creation (.objectCreation i arguments) vs w →
        Step M (.objectCreation i arguments) (vs.map some) σ (some w) σ
  /-- A new array. -/
  | array {i : OperationInfo} {dimensions : List Operation} {vs : List C} {σ : Store C} {w : C} :
      M.array (.arrayCreation i dimensions) w → Step M (.arrayCreation i dimensions) (vs.map some) σ (some w) σ
  /-- A call. -/
  | call {i : OperationInfo} {method : Symbol} {receiver : Option Operation}
      {arguments : List (Argument Operation)} {vs : List C} {σ σ' : Store C} {w : C} :
      M.call method w → Store.Overwritten (Operation.passedSymbols arguments) σ σ' →
        Step M (.invocation i method receiver arguments) (vs.map some) σ (some w) σ'
  /-- A return of a value. -/
  | ret {i : OperationInfo} {value : Operation} {σ : Store C} {v : C} :
      Step M (.ret i (some value)) [some v] σ (some v) σ
  /-- A return without a value. -/
  | retNothing {i : OperationInfo} {σ : Store C} : Step M (.ret i none) [] σ none σ

mutual

/-- An operation is evaluated to the end. Its value is missing if it is a return without one. -/
inductive Eval (M : Meaning C) : Operation → Store C → Option C → Store C → Prop where
  /-- The operands are evaluated, then the operation itself. -/
  | step {op : Operation} {rs : List (Option C)} {r : Option C} {σ σ₁ σ' : Store C} :
      EvalAll M op.evaluated σ rs σ₁ → Step M op rs σ₁ r σ' → Eval M op σ r σ'

/-- Operations are evaluated one after the other. -/
inductive EvalAll (M : Meaning C) : List Operation → Store C → List (Option C) → Store C → Prop where
  /-- There is none. -/
  | nil {σ : Store C} : EvalAll M [] σ [] σ
  /-- The first one, then the others. -/
  | cons {op : Operation} {ops : List Operation} {r : Option C} {rs : List (Option C)} {σ σ₁ σ' : Store C} :
      Eval M op σ r σ₁ → EvalAll M ops σ₁ rs σ' → EvalAll M (op :: ops) σ (r :: rs) σ'

end

/-- An operation was evaluated, with its result and the store that it left. -/
structure Event (C : Type) where
  /-- The operation. -/
  operation : Operation
  /-- Its value, if it has one. -/
  result : Option C
  /-- The store afterwards. -/
  store : Store C

/-- While some operations are evaluated one after the other, an operation among them or among
their operands is evaluated to the end. What comes after it may get stuck. -/
inductive Emits (M : Meaning C) : List Operation → Store C → Event C → Prop where
  /-- The first operation is. -/
  | head {op : Operation} {ops : List Operation} {r : Option C} {σ σ' : Store C} :
      Eval M op σ r σ' → Emits M (op :: ops) σ ⟨op, r, σ'⟩
  /-- One of its operands is. -/
  | operand {op : Operation} {ops : List Operation} {σ : Store C} {ev : Event C} :
      Emits M op.evaluated σ ev → Emits M (op :: ops) σ ev
  /-- A later operation is. -/
  | tail {op : Operation} {ops : List Operation} {r : Option C} {σ σ₁ : Store C} {ev : Event C} :
      Eval M op σ r σ₁ → Emits M ops σ₁ ev → Emits M (op :: ops) σ ev

section Sequences

variable {M : Meaning C}

theorem eval_iff {op : Operation} {r : Option C} {σ σ' : Store C} :
    Eval M op σ r σ' ↔ ∃ rs σ₁, EvalAll M op.evaluated σ rs σ₁ ∧ Step M op rs σ₁ r σ' := by
  constructor
  · rintro ⟨hall, hstep⟩
    exact ⟨_, _, hall, hstep⟩
  · rintro ⟨rs, σ₁, hall, hstep⟩
    exact .step hall hstep

@[simp]
theorem evalAll_nil {rs : List (Option C)} {σ σ' : Store C} : EvalAll M [] σ rs σ' ↔ rs = [] ∧ σ' = σ := by
  constructor
  · rintro ⟨⟩
    exact ⟨rfl, rfl⟩
  · rintro ⟨rfl, rfl⟩
    exact .nil

theorem evalAll_cons {op : Operation} {ops : List Operation} {rs : List (Option C)} {σ σ' : Store C} :
    EvalAll M (op :: ops) σ rs σ' ↔
      ∃ r rs' σ₁, rs = r :: rs' ∧ Eval M op σ r σ₁ ∧ EvalAll M ops σ₁ rs' σ' := by
  constructor
  · rintro ⟨⟩
    exact ⟨_, _, _, rfl, ‹_›, ‹_›⟩
  · rintro ⟨r, rs', σ₁, rfl, hop, hops⟩
    exact .cons hop hops

theorem evalAll_singleton {op : Operation} {rs : List (Option C)} {σ σ' : Store C} :
    EvalAll M [op] σ rs σ' ↔ ∃ r, rs = [r] ∧ Eval M op σ r σ' := by
  rw [evalAll_cons]
  constructor
  · rintro ⟨r, rs', σ₁, rfl, hop, hnil⟩
    obtain ⟨rfl, rfl⟩ := evalAll_nil.1 hnil
    exact ⟨r, rfl, hop⟩
  · rintro ⟨r, rfl, hop⟩
    exact ⟨r, [], σ', rfl, hop, .nil⟩

/-- Operations in two parts are evaluated part by part. -/
theorem evalAll_append {ops ops' : List Operation} {rs : List (Option C)} {σ σ' : Store C} :
    EvalAll M (ops ++ ops') σ rs σ' ↔
      ∃ rs₁ rs₂ σ₁, rs = rs₁ ++ rs₂ ∧ EvalAll M ops σ rs₁ σ₁ ∧ EvalAll M ops' σ₁ rs₂ σ' := by
  induction ops generalizing rs σ with
  | nil =>
    constructor
    · exact fun h => ⟨[], rs, σ, rfl, .nil, h⟩
    · rintro ⟨rs₁, rs₂, σ₁, rfl, hnil, h⟩
      obtain ⟨rfl, rfl⟩ := evalAll_nil.1 hnil
      exact h
  | cons op ops ih =>
    rw [List.cons_append, evalAll_cons]
    constructor
    · rintro ⟨r, rs', σ₁, rfl, hop, hrest⟩
      obtain ⟨rs₁, rs₂, σ₂, rfl, h₁, h₂⟩ := ih.1 hrest
      exact ⟨r :: rs₁, rs₂, σ₂, rfl, .cons hop h₁, h₂⟩
    · rintro ⟨rs₁, rs₂, σ₂, rfl, h₁, h₂⟩
      obtain ⟨r, rs', σ₁, rfl, hop, hops⟩ := evalAll_cons.1 h₁
      exact ⟨r, rs' ++ rs₂, σ₁, rfl, hop, ih.2 ⟨rs', rs₂, σ₂, rfl, hops, h₂⟩⟩

theorem not_emits_nil {σ : Store C} {ev : Event C} : ¬ Emits M [] σ ev := by
  rintro ⟨⟩

theorem emits_cons {op : Operation} {ops : List Operation} {σ : Store C} {ev : Event C} :
    Emits M (op :: ops) σ ev ↔
      (∃ r σ', Eval M op σ r σ' ∧ ev = ⟨op, r, σ'⟩) ∨ Emits M op.evaluated σ ev ∨
        ∃ r σ₁, Eval M op σ r σ₁ ∧ Emits M ops σ₁ ev := by
  constructor
  · rintro (h | h | ⟨hop, h⟩)
    · exact .inl ⟨_, _, h, rfl⟩
    · exact .inr (.inl h)
    · exact .inr (.inr ⟨_, _, hop, h⟩)
  · rintro (⟨r, σ', h, rfl⟩ | h | ⟨r, σ₁, hop, h⟩)
    · exact .head h
    · exact .operand h
    · exact .tail hop h

/-- What is evaluated in the first part, and in the second part after the first one. -/
theorem emits_append {ops ops' : List Operation} {σ : Store C} {ev : Event C} :
    Emits M (ops ++ ops') σ ev ↔
      Emits M ops σ ev ∨ ∃ rs σ₁, EvalAll M ops σ rs σ₁ ∧ Emits M ops' σ₁ ev := by
  induction ops generalizing σ with
  | nil =>
    constructor
    · exact fun h => .inr ⟨[], σ, .nil, h⟩
    · rintro (h | ⟨rs, σ₁, hnil, h⟩)
      · exact absurd h not_emits_nil
      · obtain ⟨rfl, rfl⟩ := evalAll_nil.1 hnil
        exact h
  | cons op ops ih =>
    rw [List.cons_append, emits_cons, emits_cons]
    constructor
    · rintro (h | h | ⟨r, σ₁, hop, h⟩)
      · exact .inl (.inl h)
      · exact .inl (.inr (.inl h))
      · rcases ih.1 h with h | ⟨rs, σ₂, hall, h⟩
        · exact .inl (.inr (.inr ⟨r, σ₁, hop, h⟩))
        · exact .inr ⟨r :: rs, σ₂, .cons hop hall, h⟩
    · rintro ((h | h | ⟨r, σ₁, hop, h⟩) | ⟨rs, σ₂, hall, h⟩)
      · exact .inl h
      · exact .inr (.inl h)
      · exact .inr (.inr ⟨r, σ₁, hop, ih.2 (.inl h)⟩)
      · obtain ⟨r, rs', σ₁, rfl, hop, hops⟩ := evalAll_cons.1 hall
        exact .inr (.inr ⟨r, σ₁, hop, ih.2 (.inr ⟨rs', σ₂, hops, h⟩)⟩)

theorem emits_cons_of_singleton {op : Operation} {ops : List Operation} {σ : Store C} {ev : Event C}
    (h : Emits M [op] σ ev) : Emits M (op :: ops) σ ev := by
  show Emits M ([op] ++ ops) σ ev
  exact emits_append.2 (.inl h)

/-- Whatever is evaluated on the way is one of the operations or below them. -/
theorem mem_subtrees_of_emits {ops : List Operation} {σ : Store C} {ev : Event C} (h : Emits M ops σ ev) :
    ev.operation ∈ Operation.subtrees ops := by
  induction h with
  | head _ =>
    rw [Operation.subtrees_cons]
    exact List.mem_append_left _ (Operation.mem_subtree_self _)
  | @operand op ops σ ev _ ih =>
    obtain ⟨o, ho, hev⟩ := List.mem_flatMap.1 ih
    have hmem := Operation.subtree_subset_of_mem (Operation.mem_operands_of_mem_evaluated ho) _ hev
    rw [Operation.subtrees_cons]
    exact List.mem_append_left _ (Operation.subtrees_operands_subset op _ hmem)
  | tail _ _ ih =>
    rw [Operation.subtrees_cons]
    exact List.mem_append_right _ ih

end Sequences

/-! ### Runs -/

/-- In the beginning only declared parameters have values. -/
def Starts (M : Meaning C) (g : Graph) (σ : Store C) : Prop :=
  ∀ x v, σ x = some v → x ∈ g.parameters ∧ M.parameter x v

/-- Control is in a block, some operations of which are still to be evaluated. -/
inductive Reached (M : Meaning C) (g : Graph) : Block → List Operation → Store C → Prop where
  /-- Control starts at the entry. -/
  | start {b : Block} {σ : Store C} :
      g.block? Graph.entry = some b → Starts M g σ → Reached M g b b.allOperations σ
  /-- An operation is evaluated. -/
  | step {b : Block} {op : Operation} {ops : List Operation} {r : Option C} {σ σ' : Store C} :
      Reached M g b (op :: ops) σ → Eval M op σ r σ' → Reached M g b ops σ'
  /-- Control follows a branch; the scope of some locals ends. -/
  | jump {b c : Block} {i : BlockId} {σ : Store C} :
      Reached M g b [] σ → i ∈ b.successors → g.block? i = some c →
        Reached M g c c.allOperations (σ.forgetAll b.leavingScope)

/-! ### Two stores in a row -/

namespace TwoStores

/-- What an operation carries. -/
def info (number : UInt32) : OperationInfo := ⟨⟨number⟩, none, ⟨0, 0⟩⟩

/-- The local that is stored into first. -/
def first : Symbol := Symbol.localVar "a" none

/-- The local that is stored into next. -/
def second : Symbol := Symbol.localVar "b" none

/-- Stores one value into `a` and another one into `b`, and returns. The reference to `a` has the
identifier 0, that to `b` the one given. -/
def block (number : UInt32) (left right : Operation) : Block :=
  ⟨⟨0⟩, .entry, [.assignment (info 2) (.localRef (info 0) first) left,
    .assignment (info 5) (.localRef (info number) second) right, .ret (info 6) none], none,
    [⟨⟨1⟩, .regular⟩], []⟩

/-- The body that consists of this block. -/
def graph (number : UInt32) (parameters : List Symbol) (left right : Operation) : Graph where
  owner := ⟨"M", .method, none, none, .value, 0⟩
  parameters
  blocks := [block number left right, ⟨⟨1⟩, .exit, [], none, [], []⟩]

/-- Control comes to the return with both values stored, whatever the identifiers are. -/
theorem reached {M : Meaning C} {number : UInt32} {parameters : List Symbol} {left right : Operation}
    {σ : Store C} {u v : C} (starts : Starts M (graph number parameters left right) σ)
    (evalLeft : Eval M left σ (some u) σ)
    (evalRight : Eval M right (σ.set first (some u)) (some v) (σ.set first (some u))) :
    Reached M (graph number parameters left right) (block number left right) [.ret (info 6) none]
      ((σ.set first (some u)).set second (some v)) := by
  have begun := Reached.start (M := M) (g := graph number parameters left right) rfl starts
  have storedFirst := begun.step (.step (.cons evalLeft .nil) (.assignment rfl))
  exact storedFirst.step (.step (.cons evalRight .nil) (.assignment rfl))

end TwoStores

end Dataflow
