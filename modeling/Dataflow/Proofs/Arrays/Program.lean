import Dataflow.Proofs.Contents.Values

/-!
# Programs over an array

A body that works on locals and on the elements of an array can be run on concrete values. The array is made once, and
its cells hold anything in the beginning. An index is an integer or a local; operands are evaluated from left to right,
and the cell that an assignment is to is fixed before the value is evaluated.

Which cell `a[i]` stands for depends on what `i` holds. A memory knows for each way to write the indices which cell was
last stored through it (`Memory.stored`). The evaluations take a condition on reads as a parameter: with `fun _ _ _ =>
True` they are all evaluations of a body, and with `Memory.Steady` those in which an element is read only while its
indices hold what they held when something was last stored through them.

## The relations

* `Eval` and `EvalAll`: an operation, or several of them in turn, are evaluated to the end.
* `Emits`: an operation is evaluated on the way, even if the evaluation around it gets stuck.
* `Reached`: control stands before some operations of a block.
-/

namespace Dataflow

/-! ### Indices -/

/-- The position that an operation names. -/
inductive Subscript where
  /-- A known position. -/
  | constant (value : Int64)
  /-- What a local holds. -/
  | localVar (symbol : Symbol)
  /-- The result of an operation. -/
  | result (operation : OperationId)
  deriving DecidableEq

/-- The position is one that the index may ever name. -/
def Subscript.MayName {Ω : Type} : Subscript → Datum Ω → Prop
  | .constant i, d => d = .literal (.integer i)
  | .localVar _, _ | .result _, _ => True

namespace Operation

/-- The position that the operation names. -/
def subscript : Operation → Subscript
  | literal _ (.integer i) => .constant i
  | localRef _ x => .localVar x
  | op => .result op.id

/-- An integer or a local. -/
def isSubscript : Operation → Bool
  | literal _ (.integer _) | localRef .. => true
  | _ => false

/-- A local. -/
def isLocal : Operation → Bool
  | localRef .. => true
  | _ => false

/-- A local or an element. -/
def isPlace : Operation → Bool
  | localRef .. | elementRef .. => true
  | _ => false

/-- The operation evaluates its operands one after the other, and then itself. -/
def isStrict : Operation → Bool
  | binary .. | arrayCreation .. | ret .. => true
  | _ => false

/-- The operation itself, leaving its operands aside, is one of a body over locals and elements: a constant, a local, an
element of an array in a local, an assignment to a local or an element, an operator, a new array or a return. -/
def isOverArray : Operation → Bool
  | literal .. | localRef .. | binary .. | arrayCreation .. | ret .. => true
  | elementRef _ array indices => array.isLocal && indices.all isSubscript
  | assignment _ target _ => target.isPlace
  | _ => false

end Operation

/-- The body uses only locals and elements of arrays in locals. -/
def Graph.OverArray (g : Graph) : Prop := ∀ op ∈ Operation.subtrees g.operations, op.isOverArray = true

instance (g : Graph) : Decidable g.OverArray := inferInstanceAs (Decidable (∀ op ∈ _, _))

namespace Arrays

/-! ### Memories -/

/-- What a local may hold. -/
inductive Value (Ω : Type) where
  /-- A literal, or another value. -/
  | datum (d : Datum Ω)
  /-- The array that was made by an operation. -/
  | array (site : OperationInfo)

/-- What an array holds at each position. -/
abbrev Cells (Ω : Type) := List (Datum Ω) → Datum Ω

/-- The values of locals and of the cells of the array. -/
structure Memory (Ω : Type) where
  /-- The values of the locals that have one. -/
  vars : Store (Value Ω)
  /-- The array, if it was made: by which operation, and what it holds. -/
  array : Option (OperationInfo × Cells Ω)
  /-- The position that was last stored through some indices. -/
  stored : List Subscript → Option (List (Datum Ω))

namespace Memory

variable {Ω : Type}

/-- In the beginning no local has a value, and there is no array. -/
def start : Memory Ω := ⟨fun _ => none, none, fun _ => none⟩

/-- The position that an index names at the moment. -/
def Denotes (m : Memory Ω) : Subscript → Datum Ω → Prop
  | .constant i, d => d = .literal (.integer i)
  | .localVar x, d => m.vars x = some (.datum d)
  | .result _, _ => False

/-- A local gets a value. -/
def set (m : Memory Ω) (x : Symbol) (v : Value Ω) : Memory Ω := { m with vars := m.vars.set x (some v) }

/-- The array is made. -/
def make (m : Memory Ω) (site : OperationInfo) (cells : Cells Ω) : Memory Ω := { m with array := some (site, cells) }

open Classical in
/-- A cell of the array gets a value, stored through some indices. -/
noncomputable def store (m : Memory Ω) (indices : List Subscript) (position : List (Datum Ω)) (d : Datum Ω) : Memory Ω :=
  { m with
    array := m.array.map fun (site, cells) => (site, Function.update cells position d)
    stored := Function.update m.stored indices (some position) }

/-- The scope of some locals ends. -/
def leave (m : Memory Ω) (locals : List Symbol) : Memory Ω := { m with vars := m.vars.forgetAll locals }

/-- If something was stored through the indices, then last at this position. -/
def Steady (m : Memory Ω) (indices : List Subscript) (position : List (Datum Ω)) : Prop :=
  ∀ last, m.stored indices = some last → last = position

end Memory

variable {Ω : Type}

/-! ### Evaluation -/

/-- Which reads an evaluation may do: of the position that some indices name in a memory. -/
abbrev Reads (Ω : Type) := Memory Ω → List Subscript → List (Datum Ω) → Prop

/-- All of them. -/
def anyRead : Reads Ω := fun _ _ _ => True

mutual

/-- An operation is evaluated to the end. -/
inductive Eval (may : Reads Ω) : Operation → Memory Ω → Value Ω → Memory Ω → Prop where
  /-- A constant. -/
  | literal {i : OperationInfo} {l : Literal} {m : Memory Ω} : Eval may (.literal i l) m (.datum (.literal l)) m
  /-- A local with a value. -/
  | localRef {i : OperationInfo} {x : Symbol} {m : Memory Ω} {v : Value Ω} :
      m.vars x = some v → Eval may (.localRef i x) m v m
  /-- An element of the array in a local. -/
  | element {i j site : OperationInfo} {x : Symbol} {indices : List Operation} {m : Memory Ω} {cells : Cells Ω}
      {position : List (Datum Ω)} :
      m.vars x = some (.array site) → m.array = some (site, cells) →
        List.Forall₂ m.Denotes (indices.map Operation.subscript) position →
          may m (indices.map Operation.subscript) position →
            Eval may (.elementRef i (.localRef j x) indices) m (.datum (cells position)) m
  /-- An operator. What it yields on literals is fixed if it can be evaluated. -/
  | binary {i : OperationInfo} {operator : BinaryOperator} {left right : Operation} {m m' : Memory Ω} {u v w : Datum Ω} :
      EvalAll may [left, right] m [.datum u, .datum v] m' →
        (Meaning.ofLiterals Ω).binary (.binary i operator left right) operator u v w →
          Eval may (.binary i operator left right) m (.datum w) m'
  /-- A new array, if there is none. Its cells hold anything. -/
  | creation {i : OperationInfo} {dimensions : List Operation} {m m' : Memory Ω} {vs : List (Value Ω)} (cells : Cells Ω) :
      EvalAll may dimensions m vs m' → m'.array = none →
        Eval may (.arrayCreation i dimensions) m (.array i) (m'.make i cells)
  /-- An assignment to a local. -/
  | assignment {i j : OperationInfo} {x : Symbol} {value : Operation} {m m' : Memory Ω} {v : Value Ω} :
      Eval may value m v m' → Eval may (.assignment i (.localRef j x) value) m v (m'.set x v)
  /-- An assignment to an element. Its position is fixed before the value is evaluated. -/
  | store {i j k site : OperationInfo} {x : Symbol} {indices : List Operation} {value : Operation} {m m' : Memory Ω}
      {cells : Cells Ω} {position : List (Datum Ω)} {d : Datum Ω} :
      m.vars x = some (.array site) → List.Forall₂ m.Denotes (indices.map Operation.subscript) position →
        Eval may value m (.datum d) m' → m'.array = some (site, cells) →
          Eval may (.assignment i (.elementRef j (.localRef k x) indices) value) m (.datum d)
            (m'.store (indices.map Operation.subscript) position d)
  /-- A return of a value. -/
  | ret {i : OperationInfo} {value : Operation} {m m' : Memory Ω} {v : Value Ω} :
      EvalAll may [value] m [v] m' → Eval may (.ret i (some value)) m v m'

/-- Operations are evaluated one after the other. -/
inductive EvalAll (may : Reads Ω) : List Operation → Memory Ω → List (Value Ω) → Memory Ω → Prop where
  /-- There is none. -/
  | nil {m : Memory Ω} : EvalAll may [] m [] m
  /-- The first one, then the others. -/
  | cons {op : Operation} {ops : List Operation} {v : Value Ω} {vs : List (Value Ω)} {m m₁ m' : Memory Ω} :
      Eval may op m v m₁ → EvalAll may ops m₁ vs m' → EvalAll may (op :: ops) m (v :: vs) m'

end

/-- An operation was evaluated, with its value. -/
structure Event (Ω : Type) where
  /-- The operation. -/
  operation : Operation
  /-- Its value. -/
  value : Value Ω

/-- While an operation is evaluated, it or one below it is evaluated to the end. What comes after that may get stuck. -/
inductive Emits (may : Reads Ω) : Operation → Memory Ω → Event Ω → Prop where
  /-- The operation itself is. -/
  | self {op : Operation} {m m' : Memory Ω} {v : Value Ω} : Eval may op m v m' → Emits may op m ⟨op, v⟩
  /-- The array of an element is. -/
  | array {i j : OperationInfo} {x : Symbol} {indices : List Operation} {m : Memory Ω} {v : Value Ω} :
      m.vars x = some v → Emits may (.elementRef i (.localRef j x) indices) m ⟨.localRef j x, v⟩
  /-- One of the operands is, after those before it. -/
  | operand {op o : Operation} {before after : List Operation} {m m' : Memory Ω} {vs : List (Value Ω)} {ev : Event Ω} :
      op.isStrict = true → op.operands = before ++ o :: after → EvalAll may before m vs m' → Emits may o m' ev →
        Emits may op m ev
  /-- The array of the element that an assignment is to. -/
  | target {i j k : OperationInfo} {x : Symbol} {indices : List Operation} {value : Operation} {m : Memory Ω}
      {v : Value Ω} :
      m.vars x = some v →
        Emits may (.assignment i (.elementRef j (.localRef k x) indices) value) m ⟨.localRef k x, v⟩
  /-- The value that is assigned. -/
  | value {i : OperationInfo} {target value : Operation} {m : Memory Ω} {ev : Event Ω} :
      Emits may value m ev → Emits may (.assignment i target value) m ev

/-- The same while some operations are evaluated one after the other. -/
def EmitsAll (may : Reads Ω) (ops : List Operation) (m : Memory Ω) (ev : Event Ω) : Prop :=
  ∃ before o after vs m', ops = before ++ o :: after ∧ EvalAll may before m vs m' ∧ Emits may o m' ev

variable {may : Reads Ω} {op : Operation} {ops : List Operation} {m : Memory Ω} {ev : Event Ω}

theorem not_emitsAll_nil : ¬EmitsAll may [] m ev := by
  rintro ⟨before, o, after, -, -, hnil, -⟩
  cases before <;> cases hnil

/-- It is the first operation on the way of which this happens, or else one of the others. -/
theorem emitsAll_cons : EmitsAll may (op :: ops) m ev ↔
    Emits may op m ev ∨ ∃ v m₁, Eval may op m v m₁ ∧ EmitsAll may ops m₁ ev := by
  constructor
  · rintro ⟨before, o, after, vs, m', hsplit, hbefore, hemits⟩
    cases before with
    | nil =>
      obtain ⟨rfl, rfl⟩ := List.cons.inj hsplit
      cases hbefore
      exact .inl hemits
    | cons first before =>
      obtain ⟨rfl, rfl⟩ := List.cons.inj hsplit
      cases hbefore with
      | cons hop hbefore => exact .inr ⟨_, _, hop, before, o, after, _, m', rfl, hbefore, hemits⟩
  · rintro (hemits | ⟨v, m₁, hop, before, o, after, vs, m', rfl, hbefore, hemits⟩)
    · exact ⟨[], op, ops, [], m, rfl, .nil, hemits⟩
    · exact ⟨op :: before, o, after, v :: vs, m', rfl, .cons hop hbefore, hemits⟩

/-! ### Runs -/

/-- Control is in a block, some operations of which are still to be evaluated. -/
inductive Reached (may : Reads Ω) (g : Graph) : Block → List Operation → Memory Ω → Prop where
  /-- Control starts at the entry. -/
  | start {b : Block} : g.block? Graph.entry = some b → Reached may g b b.allOperations .start
  /-- An operation is evaluated. -/
  | step {b : Block} {op : Operation} {ops : List Operation} {m m' : Memory Ω} {v : Value Ω} :
      Reached may g b (op :: ops) m → Eval may op m v m' → Reached may g b ops m'
  /-- Control follows a branch; the scope of some locals ends. -/
  | jump {b c : Block} {i : BlockId} {m : Memory Ω} :
      Reached may g b [] m → i ∈ b.successors → g.block? i = some c →
        Reached may g c c.allOperations (m.leave b.leavingScope)

end Arrays

end Dataflow
