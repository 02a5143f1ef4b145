import Dataflow.Program.Basic

/-!
# Assembling bodies by hand

`OperationSupply` hands out operations with fresh identifiers. One supply serves
all bodies of a program, so that identifiers stay distinct. `GraphDraft` collects
blocks; it starts with an entry and an exit and is checked as a whole in the end.
-/

namespace Dataflow

/-! ### Fresh operations -/

/-- The numbers that the next operation and the next temporary get. -/
structure OperationSupply where
  /-- The next operation. -/
  nextId : UInt32
  /-- The next temporary. -/
  nextCapture : UInt32
  /-- The source line of everything made from now on. -/
  line : UInt32
  deriving DecidableEq, Repr

namespace OperationSupply

/-- The supply before any operation is made. -/
def initial : OperationSupply := ⟨0, 0, 0⟩

/-- Sets the source line of everything made afterwards. -/
def atLine (line : UInt32) : StateM OperationSupply Unit :=
  modify fun s => { s with line }

/-- An operation of the given content with the next identifier. -/
def make (content : OperationInfo → Operation) (type : Option TypeRef) :
    StateM OperationSupply Operation := do
  let s ← get
  set { s with nextId := s.nextId + 1 }
  return content ⟨⟨s.nextId⟩, type, ⟨s.line, 0⟩⟩

/-- The type of a constant; null has none. -/
def literalType : Literal → Option TypeRef
  | .null => none
  | .bool _ => some (TypeRef.value "bool")
  | .integer _ => some (TypeRef.value "int")
  | .string _ => some (TypeRef.reference "string")

/-- A constant. -/
def literal (value : Literal) : StateM OperationSupply Operation :=
  make (.literal · value) (literalType value)

/-- A local variable, of its declared type. -/
def localRef (symbol : Symbol) : StateM OperationSupply Operation :=
  make (.localRef · symbol) symbol.type

/-- A parameter, of its declared type. -/
def parameterRef (symbol : Symbol) : StateM OperationSupply Operation :=
  make (.parameterRef · symbol) symbol.type

/-- The receiver. -/
def receiverRef (type : TypeRef) : StateM OperationSupply Operation :=
  make .receiverRef (some type)

/-- A field, of its declared type. -/
def fieldRef (owner : Option Operation) (field : Symbol) : StateM OperationSupply Operation :=
  make (.fieldRef · owner field) field.type

/-- A slot of an array. -/
def elementRef (array : Operation) (indices : List Operation) (type : Option TypeRef) :
    StateM OperationSupply Operation :=
  make (.elementRef · array indices) type

/-- A new object. -/
def objectCreation (type : TypeRef) (arguments : List (Argument Operation)) :
    StateM OperationSupply Operation :=
  make (.objectCreation · arguments) (some type)

/-- A new array. -/
def arrayCreation (type : TypeRef) (dimensions : List Operation) :
    StateM OperationSupply Operation :=
  make (.arrayCreation · dimensions) (some type)

/-- A store, of the type of its target. -/
def assignment (target value : Operation) : StateM OperationSupply Operation :=
  make (.assignment · target value) target.type

/-- A call, of the type that the method returns. -/
def invocation (method : Symbol) (receiver : Option Operation)
    (arguments : List (Argument Operation)) : StateM OperationSupply Operation :=
  make (.invocation · method receiver arguments) method.type

/-- A binary operator. -/
def binary (operator : BinaryOperator) (left right : Operation) (type : Option TypeRef) :
    StateM OperationSupply Operation :=
  make (.binary · operator left right) type

/-- A conversion. -/
def conversion (operand : Operation) (type : Option TypeRef) : StateM OperationSupply Operation :=
  make (.conversion · operand) type

/-- A store into a fresh temporary, of the type of the value. -/
def capture (value : Operation) (byLocation : Bool) : StateM OperationSupply Operation := do
  let s ← get
  set { s with nextCapture := s.nextCapture + 1 }
  make (.capture · ⟨s.nextCapture⟩ value byLocation) value.type

/-- A temporary. -/
def captureRef (capture : CaptureId) (type : Option TypeRef) : StateM OperationSupply Operation :=
  make (.captureRef · capture) type

/-- The end of the method, of the type of the value it returns. -/
def ret (value : Option Operation) : StateM OperationSupply Operation :=
  make (.ret · value) (value.bind (·.type))

/-- An operation of a program that does not compile. -/
def invalid : StateM OperationSupply Operation := make .invalid none

end OperationSupply

/-- An argument that is bound by its position. -/
def Argument.positional (value : Operation) : Argument Operation := ⟨none, value, .value⟩

/-- An argument that is bound to a parameter and passed the way it asks for. -/
def Argument.bound (parameter : Symbol) (value : Operation) : Argument Operation :=
  ⟨some parameter, value, parameter.refKind⟩

/-! ### Drafts of graphs -/

/-- The blocks of a body that is being assembled. -/
structure GraphDraft where
  /-- The method. -/
  owner : Symbol
  /-- Its parameters. -/
  parameters : List Symbol
  /-- The blocks so far. -/
  blocks : List Block
  deriving Repr

/-- A step names a block that the draft does not have. -/
structure NoSuchBlock where
  /-- The number of blocks. -/
  size : Nat
  /-- The block that was named. -/
  block : BlockId
  deriving DecidableEq, Repr

/-- What is wrong. -/
def NoSuchBlock.message (e : NoSuchBlock) : String :=
  "index out of bounds: the len is " ++ toString e.size ++ " but the index is " ++
    toString e.block.index

namespace GraphDraft

/-- The entry of every draft. -/
def entry : BlockId := ⟨0⟩

/-- The exit of every draft. -/
def exit : BlockId := ⟨1⟩

/-- A draft with an entry and an exit that nothing connects. -/
def start (owner : Symbol) (parameters : List Symbol) : GraphDraft :=
  ⟨owner, parameters, [Block.bare entry .entry, Block.bare exit .exit]⟩

/-- The draft with another block at the end. -/
def addBlock (d : GraphDraft) : GraphDraft :=
  { d with blocks := d.blocks ++ [Block.bare (BlockId.ofNat d.blocks.length) .block] }

/-- Changes one block. -/
def change (d : GraphDraft) (b : BlockId) (f : Block → Block) : Except NoSuchBlock GraphDraft :=
  if b.toNat < d.blocks.length then .ok { d with blocks := d.blocks.modify b.toNat f }
  else .error ⟨d.blocks.length, b⟩

/-- Adds an operation to a block. -/
def push (d : GraphDraft) (b : BlockId) (op : Operation) : Except NoSuchBlock GraphDraft :=
  d.change b fun block => { block with operations := block.operations ++ [op] }

/-- Adds a branch that is always taken. -/
def goto (d : GraphDraft) (source target : BlockId) : Except NoSuchBlock GraphDraft :=
  d.change source fun block => { block with branches := block.branches ++ [⟨target, .regular⟩] }

/-- Ends a block with a conditional branch. -/
def branch (d : GraphDraft) (source : BlockId) (condition : Operation) (whenTrue whenFalse : BlockId) :
    Except NoSuchBlock GraphDraft :=
  d.change source fun block =>
    { block with
      condition := some condition
      branches := block.branches ++ [⟨whenTrue, .whenTrue⟩, ⟨whenFalse, .whenFalse⟩] }

/-- Ends the scope of locals with a block. -/
def leaveScope (d : GraphDraft) (b : BlockId) (locals : List Symbol) : Except NoSuchBlock GraphDraft :=
  d.change b fun block => { block with leavingScope := block.leavingScope ++ locals }

/-- The graph, if the blocks pass the rules of graphs. -/
def build (d : GraphDraft) : Except GraphError Graph := Graph.ofBlocks? d.owner d.parameters d.blocks

end GraphDraft

end Dataflow
