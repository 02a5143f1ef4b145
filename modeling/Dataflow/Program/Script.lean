import Dataflow.Program.Assembly

/-!
# Assembly scripts

A script assembles a body step by step. The operations that a step needs are given by
recipes, which are made from the inside out and from left to right; so an operation
gets a later identifier than its operands.
-/

namespace Dataflow

/-- How to make an operation. -/
inductive Recipe where
  /-- A constant. -/
  | literal (value : Literal)
  /-- A local variable. -/
  | localRef (symbol : Symbol)
  /-- A parameter. -/
  | parameterRef (symbol : Symbol)
  /-- The receiver. -/
  | receiverRef (type : TypeRef)
  /-- A field. -/
  | fieldRef (owner : Option Recipe) (field : Symbol)
  /-- A slot of an array. -/
  | elementRef (array : Recipe) (indices : List Recipe) (type : Option TypeRef)
  /-- A new object; an argument may be bound to a parameter. -/
  | objectCreation (type : TypeRef) (arguments : List (Option Symbol × Recipe))
  /-- A new array. -/
  | arrayCreation (type : TypeRef) (dimensions : List Recipe)
  /-- A store of a value. -/
  | assignment (target value : Recipe)
  /-- A call; an argument may be bound to a parameter. -/
  | invocation (receiver : Option Recipe) (method : Symbol) (arguments : List (Option Symbol × Recipe))
  /-- A binary operator. -/
  | binary (operator : BinaryOperator) (left right : Recipe) (type : Option TypeRef)
  /-- A conversion. -/
  | conversion (operand : Recipe) (type : Option TypeRef)
  /-- A store into a fresh temporary. -/
  | capture (value : Recipe) (byLocation : Bool)
  /-- A temporary. -/
  | captureRef (capture : CaptureId) (type : Option TypeRef)
  /-- The end of the method. -/
  | ret (value : Option Recipe)
  /-- An operation of a program that does not compile. -/
  | invalid
  /-- An operation on a source line, on which everything made afterwards stands, too. -/
  | atLine (line : UInt32) (recipe : Recipe)

namespace Recipe

/-- An argument, which is bound by its position if it is bound to no parameter. -/
def argument (parameter : Option Symbol) (value : Operation) : Argument Operation :=
  match parameter with
  | some parameter => Argument.bound parameter value
  | none => Argument.positional value

mutual

/-- Makes the operation. -/
def make : Recipe → StateM OperationSupply Operation
  | literal value => OperationSupply.literal value
  | localRef symbol => OperationSupply.localRef symbol
  | parameterRef symbol => OperationSupply.parameterRef symbol
  | receiverRef type => OperationSupply.receiverRef type
  | fieldRef owner field => do OperationSupply.fieldRef (← makeOption owner) field
  | elementRef array indices type => do
    let array ← make array
    OperationSupply.elementRef array (← makeList indices) type
  | objectCreation type arguments => do OperationSupply.objectCreation type (← makeArguments arguments)
  | arrayCreation type dimensions => do OperationSupply.arrayCreation type (← makeList dimensions)
  | assignment target value => do
    let target ← make target
    OperationSupply.assignment target (← make value)
  | invocation receiver method arguments => do
    let receiver ← makeOption receiver
    OperationSupply.invocation method receiver (← makeArguments arguments)
  | binary operator left right type => do
    let left ← make left
    OperationSupply.binary operator left (← make right) type
  | conversion operand type => do OperationSupply.conversion (← make operand) type
  | capture value byLocation => do OperationSupply.capture (← make value) byLocation
  | captureRef temporary type => OperationSupply.captureRef temporary type
  | ret value => do OperationSupply.ret (← makeOption value)
  | invalid => OperationSupply.invalid
  | atLine line recipe => do
    OperationSupply.atLine line
    make recipe

/-- Makes an operand that may be absent. -/
def makeOption : Option Recipe → StateM OperationSupply (Option Operation)
  | none => return none
  | some r => return some (← make r)

/-- Makes operands. -/
def makeList : List Recipe → StateM OperationSupply (List Operation)
  | [] => return []
  | r :: rs => do
    let op ← make r
    return op :: (← makeList rs)

/-- Makes arguments. -/
def makeArguments : List (Option Symbol × Recipe) → StateM OperationSupply (List (Argument Operation))
  | [] => return []
  | (parameter, r) :: rs => do
    let op ← make r
    return argument parameter op :: (← makeArguments rs)

end

end Recipe

/-- A step of a script. -/
inductive AssemblyStep where
  /-- Adds a block. -/
  | addBlock
  /-- Adds an operation to a block. -/
  | push (block : BlockId) (recipe : Recipe)
  /-- Adds a branch that is always taken. -/
  | goto (source target : BlockId)
  /-- Ends a block with a conditional branch. -/
  | branch (source : BlockId) (condition : Recipe) (whenTrue whenFalse : BlockId)
  /-- Ends the scope of locals with a block. -/
  | leaveScope (block : BlockId) (locals : List Symbol)

/-- Why a script does not assemble a body. -/
inductive AssemblyError where
  /-- A step names a block that is not there. -/
  | noSuchBlock (e : NoSuchBlock)
  /-- The blocks break a rule. -/
  | malformed (e : GraphError)
  deriving DecidableEq, Repr

/-- Assembling with a supply of operations. -/
abbrev Assembling := StateT OperationSupply (Except AssemblyError)

namespace AssemblyStep

/-- Makes an operation; that never fails. -/
def make (r : Recipe) : Assembling Operation := fun supply => .ok (r.make.run supply)

/-- Changes a draft. -/
def change (d : Except NoSuchBlock GraphDraft) : Assembling GraphDraft :=
  fun supply => (d.mapError .noSuchBlock).map fun d => (d, supply)

/-- Takes a step. -/
def run (d : GraphDraft) : AssemblyStep → Assembling GraphDraft
  | addBlock => return d.addBlock
  | push block recipe => do change (d.push block (← make recipe))
  | goto source target => change (d.goto source target)
  | branch source condition whenTrue whenFalse => do
    change (d.branch source (← make condition) whenTrue whenFalse)
  | leaveScope block locals => change (d.leaveScope block locals)

end AssemblyStep

/-- The script of one body. -/
structure BodyScript where
  /-- The method. -/
  owner : Symbol
  /-- Its parameters. -/
  parameters : List Symbol
  /-- The steps. -/
  steps : List AssemblyStep

namespace BodyScript

/-- Assembles the body. -/
def assemble (script : BodyScript) : Assembling Graph := do
  let d ← script.steps.foldlM AssemblyStep.run (GraphDraft.start script.owner script.parameters)
  fun supply => (d.build.mapError .malformed).map fun g => (g, supply)

end BodyScript

end Dataflow
