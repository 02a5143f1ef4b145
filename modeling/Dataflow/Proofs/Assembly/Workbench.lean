import Dataflow.Program.Assembly

/-!
# Assembling bodies side by side

One supply serves all bodies of a program, and nothing makes a front end finish one operation, or one body, before it begins
the next. Here it takes any steps in any order: it may make operations long before they are used, and work on several drafts
at a time.

## The notions

* `Part`: what is asked of the supply, with operands of any type. An operation that was made before is named by its number.
* `Edit`, `Step`: what is done to one draft, and what is done at all.
* `Workbench.run`: the operations and bodies that a script of steps makes.
* `Sound`: a script names only what is there, and uses no operation twice.
-/

namespace Dataflow

namespace Assembly

/-- What an operation is made of. -/
inductive Part (α : Type) where
  /-- A constant. -/
  | literal (value : Literal)
  /-- A local variable. -/
  | localRef (symbol : Symbol)
  /-- A parameter. -/
  | parameterRef (symbol : Symbol)
  /-- The receiver. -/
  | receiverRef (type : TypeRef)
  /-- A field. -/
  | fieldRef (owner : Option α) (field : Symbol)
  /-- A slot of an array. -/
  | elementRef (array : α) (indices : List α) (type : Option TypeRef)
  /-- A new object. -/
  | objectCreation (type : TypeRef) (arguments : List (Argument α))
  /-- A new array. -/
  | arrayCreation (type : TypeRef) (dimensions : List α)
  /-- A store of a value. -/
  | assignment (target value : α)
  /-- A call. -/
  | invocation (method : Symbol) (receiver : Option α) (arguments : List (Argument α))
  /-- A binary operator. -/
  | binary (operator : BinaryOperator) (left right : α) (type : Option TypeRef)
  /-- A conversion. -/
  | conversion (operand : α) (type : Option TypeRef)
  /-- A store into a fresh temporary. -/
  | capture (value : α) (byLocation : Bool)
  /-- A temporary. -/
  | captureRef (capture : CaptureId) (type : Option TypeRef)
  /-- The end of the method. -/
  | ret (value : Option α)
  /-- An operation of a program that does not compile. -/
  | invalid

namespace Part

variable {α β : Type}

/-- The operands in the order of evaluation. -/
def operands : Part α → List α
  | literal _ | localRef _ | parameterRef _ | receiverRef _ | captureRef .. | invalid => []
  | fieldRef owner _ => owner.toList
  | elementRef array indices _ => array :: indices
  | objectCreation _ arguments => arguments.map (·.value)
  | arrayCreation _ dimensions => dimensions
  | assignment target value => [target, value]
  | invocation _ receiver arguments => receiver.toList ++ arguments.map (·.value)
  | binary _ left right _ => [left, right]
  | conversion operand _ => [operand]
  | capture value _ => [value]
  | ret value => value.toList

/-- The same with other operands. -/
def map (f : α → β) : Part α → Part β
  | literal value => literal value
  | localRef symbol => localRef symbol
  | parameterRef symbol => parameterRef symbol
  | receiverRef type => receiverRef type
  | fieldRef owner field => fieldRef (owner.map f) field
  | elementRef array indices type => elementRef (f array) (indices.map f) type
  | objectCreation type arguments => objectCreation type (arguments.map fun a => ⟨a.parameter, f a.value, a.refKind⟩)
  | arrayCreation type dimensions => arrayCreation type (dimensions.map f)
  | assignment target value => assignment (f target) (f value)
  | invocation method receiver arguments =>
    invocation method (receiver.map f) (arguments.map fun a => ⟨a.parameter, f a.value, a.refKind⟩)
  | binary operator left right type => binary operator (f left) (f right) type
  | conversion operand type => conversion (f operand) type
  | capture value byLocation => capture (f value) byLocation
  | captureRef temporary type => captureRef temporary type
  | ret value => ret (value.map f)
  | invalid => invalid

/-- Makes the operation. -/
def make : Part Operation → StateM OperationSupply Operation
  | literal value => OperationSupply.literal value
  | localRef symbol => OperationSupply.localRef symbol
  | parameterRef symbol => OperationSupply.parameterRef symbol
  | receiverRef type => OperationSupply.receiverRef type
  | fieldRef owner field => OperationSupply.fieldRef owner field
  | elementRef array indices type => OperationSupply.elementRef array indices type
  | objectCreation type arguments => OperationSupply.objectCreation type arguments
  | arrayCreation type dimensions => OperationSupply.arrayCreation type dimensions
  | assignment target value => OperationSupply.assignment target value
  | invocation method receiver arguments => OperationSupply.invocation method receiver arguments
  | binary operator left right type => OperationSupply.binary operator left right type
  | conversion operand type => OperationSupply.conversion operand type
  | capture value byLocation => OperationSupply.capture value byLocation
  | captureRef temporary type => OperationSupply.captureRef temporary type
  | ret value => OperationSupply.ret value
  | invalid => OperationSupply.invalid

theorem operands_map (f : α → β) (p : Part α) : (p.map f).operands = p.operands.map f := by
  cases p with
  | fieldRef owner _ | ret owner => cases owner <;> rfl
  | invocation _ receiver _ => cases receiver <;> simp [map, operands]
  | _ => simp [map, operands]

/-- What is made gets the next identifier and keeps the operands. -/
theorem make_spec (p : Part Operation) (s : OperationSupply) :
    (p.make.run s).1.id = ⟨s.nextId⟩ ∧ (p.make.run s).1.operands = p.operands ∧
      (p.make.run s).2.nextId = s.nextId + 1 := by
  cases p <;> exact ⟨rfl, rfl, rfl⟩

end Part

/-! ### Steps -/

/-- What is done to a draft. -/
inductive Edit where
  /-- Adds a block. -/
  | addBlock
  /-- Adds an operation to a block. -/
  | push (block : BlockId) (operation : Nat)
  /-- Adds a branch that is always taken. -/
  | goto (source target : BlockId)
  /-- Ends a block with a conditional branch. -/
  | branch (source : BlockId) (condition : Nat) (whenTrue whenFalse : BlockId)
  /-- Ends the scope of locals with a block. -/
  | leaveScope (block : BlockId) (locals : List Symbol)
  /-- Gives the draft up for the graph. -/
  | build

/-- What is done at the bench. -/
inductive Step where
  /-- Sets the source line of everything made afterwards. -/
  | atLine (line : UInt32)
  /-- Makes an operation. -/
  | make (part : Part Nat)
  /-- Opens a draft. -/
  | draft (owner : Symbol) (parameters : List Symbol)
  /-- Does something to a draft. -/
  | edit (draft : Nat) (edit : Edit)

/-- A body as far as it has come. -/
inductive Body where
  /-- It is being assembled. -/
  | draft (d : GraphDraft)
  /-- It was checked. -/
  | built (result : Except GraphError Graph)

/-- The graph, if the body passed the check. -/
def Body.graph? : Body → Option Graph
  | .built (.ok g) => some g
  | .built (.error _) | .draft _ => none

namespace Edit

/-- The operations that are used up. -/
def uses : Edit → List Nat
  | push _ n | branch _ n _ _ => [n]
  | addBlock | goto .. | leaveScope .. | build => []

/-- The block that is changed. -/
def source? : Edit → Option BlockId
  | push b _ | goto b _ | branch b _ _ _ | leaveScope b _ => some b
  | addBlock | build => none

/-- The edges that are added. -/
def edges : Edit → List (BlockId × BlockId)
  | goto source target => [(source, target)]
  | branch source _ whenTrue whenFalse => [(source, whenTrue), (source, whenFalse)]
  | addBlock | push .. | leaveScope .. | build => []

/-- Whether a block is added. -/
def isAddBlock : Edit → Bool
  | addBlock => true
  | _ => false

/-- Whether the draft is given up. -/
def isBuild : Edit → Bool
  | build => true
  | _ => false

/-- Changes a draft, given the operations by their numbers. -/
def apply (operation : Nat → Operation) (d : GraphDraft) : Edit → Except NoSuchBlock Body
  | addBlock => .ok (.draft d.addBlock)
  | push b n => (d.push b (operation n)).map .draft
  | goto source target => (d.goto source target).map .draft
  | branch source n whenTrue whenFalse => (d.branch source (operation n) whenTrue whenFalse).map .draft
  | leaveScope b locals => (d.leaveScope b locals).map .draft
  | build => .ok (.built d.build)

end Edit

/-- The operations that are used up. -/
def Step.uses : Step → List Nat
  | make part => part.operands
  | edit _ e => e.uses
  | atLine _ | draft .. => []

/-! ### The bench -/

/-- What was made so far. -/
structure Workbench where
  /-- Where operations come from. -/
  supply : OperationSupply
  /-- All operations, in the order in which they were made. -/
  operations : List Operation
  /-- The bodies, in the order in which they were opened. -/
  bodies : List Body

namespace Workbench

/-- Nothing was made yet. -/
def empty : Workbench := ⟨OperationSupply.initial, [], []⟩

/-- The operation with the number. -/
def operation (w : Workbench) (n : Nat) : Operation := w.operations.getD n (.invalid ⟨⟨0⟩, none, ⟨0, 0⟩⟩)

/-- The graphs of all bodies that passed the check. -/
def graphs (w : Workbench) : List Graph := w.bodies.filterMap (·.graph?)

/-- Takes a step whose operations are there; nothing comes of it if the draft or the block is not. -/
def take (w : Workbench) : Step → Option Workbench
  | .atLine line => some { w with supply := ((OperationSupply.atLine line).run w.supply).2 }
  | .make part =>
    let (op, supply) := (part.map w.operation).make.run w.supply
    some { w with supply, operations := w.operations ++ [op] }
  | .draft owner parameters => some { w with bodies := w.bodies ++ [.draft (GraphDraft.start owner parameters)] }
  | .edit d e =>
    match w.bodies[d]? with
    | some (.draft draft) =>
      match e.apply w.operation draft with
      | .ok body => some { w with bodies := w.bodies.set d body }
      | .error _ => none
    | some (.built _) | none => none

/-- Takes a step, if everything is there that it names. -/
def step (w : Workbench) (s : Step) : Option Workbench :=
  if ∀ n ∈ s.uses, n < w.operations.length then w.take s else none

/-- Takes all steps of a script. -/
def run (script : List Step) : Option Workbench := script.foldlM step empty

theorem run_concat (script : List Step) (s : Step) : run (script ++ [s]) = (run script).bind (·.step s) := by
  rw [run, run, List.foldlM_append]
  cases script.foldlM step empty <;> simp

end Workbench

/-! ### Scripts -/

/-- The number of operations that are made. -/
def made (script : List Step) : Nat := script.countP fun
  | .make _ => true
  | _ => false

/-- The number of drafts that are opened. -/
def opened (script : List Step) : Nat := script.countP fun
  | .draft .. => true
  | _ => false

/-- The operations that are used, as often as they are. -/
def uses (script : List Step) : List Nat := script.flatMap (·.uses)

/-- What is done to one draft. -/
def edits (script : List Step) (d : Nat) : List Edit := script.filterMap fun
  | .edit d' e => if d' = d then some e else none
  | _ => none

/-- The number of blocks that a draft gets: an entry, an exit, and what is added. -/
def blocks (script : List Step) (d : Nat) : Nat := 2 + (edits script d).countP (·.isAddBlock)

/-- The edges that a draft gets. -/
def edges (script : List Step) (d : Nat) : List (BlockId × BlockId) := (edits script d).flatMap (·.edges)

/-- Whether a draft is given up. -/
def isBuilt (script : List Step) (d : Nat) : Bool := (edits script d).any (·.isBuild)

/-- What a step names was made before: operations, the draft, which was not given up, and the block that is changed. -/
def Step.Grounded (before : List Step) : Step → Prop
  | atLine _ | draft .. => True
  | make part => ∀ n ∈ part.operands, n < made before
  | edit d e => d < opened before ∧ isBuilt before d = false ∧ (∀ n ∈ e.uses, n < made before) ∧
      ∀ b ∈ e.source?, b.toNat < blocks before d

instance (before : List Step) : (s : Step) → Decidable (s.Grounded before)
  | .atLine _ | .draft .. => inferInstanceAs (Decidable True)
  | .make _ => inferInstanceAs (Decidable (∀ _ ∈ _, _))
  | .edit _ _ => inferInstanceAs (Decidable (_ ∧ _))

/-- A script that can be followed, and that uses no operation twice. Operations and blocks are numbered by machine words:
identifiers may run out, and the names of blocks last longer than any memory. -/
structure Sound (script : List Step) : Prop where
  /-- There are fewer operations than identifiers. -/
  few : made script < UInt32.size
  /-- No draft has more blocks than there are names. -/
  named : ∀ d, blocks script d ≤ UInt64.size
  /-- No operation is used twice. -/
  once : (uses script).Nodup
  /-- What a step names is there. -/
  grounded : ∀ (i : Nat) (h : i < script.length), script[i].Grounded (script.take i)

end Assembly

end Dataflow
