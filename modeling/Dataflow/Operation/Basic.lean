import Dataflow.Symbol.Basic
import Dataflow.Operation.Literal

/-!
# Operations

An operation is a node of the tree that a statement or an expression was lowered
to. Every operation has an identifier; the analyses record what they learn under
it. Nothing forces identifiers to differ, and an analysis of a body that repeats
one records the last visit.
-/

namespace Dataflow

/-! ### Identifiers -/

/-- Identifies an operation of a program. -/
structure OperationId where
  /-- The number. -/
  number : UInt32
  deriving DecidableEq, Repr

namespace OperationId

instance : Ord OperationId := ⟨compareOn number⟩

instance : Std.TransOrd OperationId := inferInstanceAs (Std.TransCmp (compareOn number))

instance : Std.LawfulEqOrd OperationId :=
  lawfulEqOrd_of fun a b h => by
    cases a
    cases b
    simpa using compareOn_eq_iff.1 h

/-- An identifier is written as `op7`. -/
def text (id : OperationId) : String := "op" ++ toString id.number

end OperationId

/-- Identifies a compiler-generated temporary of a method body. -/
structure CaptureId where
  /-- The number. -/
  number : UInt32
  deriving DecidableEq, Repr

namespace CaptureId

instance : Ord CaptureId := ⟨compareOn number⟩

instance : Std.TransOrd CaptureId := inferInstanceAs (Std.TransCmp (compareOn number))

instance : Std.LawfulEqOrd CaptureId :=
  lawfulEqOrd_of fun a b h => by
    cases a
    cases b
    simpa using compareOn_eq_iff.1 h

/-- A temporary is written as `$capture7`. -/
def text (id : CaptureId) : String := "$capture" ++ toString id.number

end CaptureId

/-- A place in the source text. -/
structure SourceSpan where
  /-- The line. -/
  line : UInt32
  /-- The column. -/
  column : UInt32
  deriving DecidableEq, Repr

namespace SourceSpan

instance : Ord SourceSpan := ⟨compareLex (compareOn line) (compareOn column)⟩

instance : Std.TransOrd SourceSpan :=
  inferInstanceAs (Std.TransCmp (compareLex (compareOn line) (compareOn column)))

instance : Std.LawfulEqOrd SourceSpan :=
  lawfulEqOrd_of fun a b h => by
    obtain ⟨h₁, h₂⟩ := compareLex_eq_iff.1 h
    cases a
    cases b
    simp_all [compareOn_eq_iff]

end SourceSpan

/-! ### Operations -/

/-- What every operation carries besides its own content. -/
structure OperationInfo where
  /-- The identifier. -/
  id : OperationId
  /-- The static type of the result. -/
  type : Option TypeRef
  /-- Where the operation stands. -/
  span : SourceSpan
  deriving DecidableEq, Repr

/-- A value passed in a call or an object creation. -/
structure Argument (α : Type) where
  /-- The parameter it is bound to; bound by its position if there is none. -/
  parameter : Option Symbol
  /-- The value. -/
  value : α
  /-- How it is passed. -/
  refKind : RefKind
  deriving Repr

/-- A tree of operations. -/
inductive Operation where
  /-- A constant. -/
  | literal (info : OperationInfo) (value : Literal)
  /-- A local variable. -/
  | localRef (info : OperationInfo) (symbol : Symbol)
  /-- A parameter. -/
  | parameterRef (info : OperationInfo) (symbol : Symbol)
  /-- The receiver of the enclosing method. -/
  | receiverRef (info : OperationInfo)
  /-- A field of an object, or a static field without one. -/
  | fieldRef (info : OperationInfo) (owner : Option Operation) (field : Symbol)
  /-- A slot of an array. -/
  | elementRef (info : OperationInfo) (array : Operation) (indices : List Operation)
  /-- A new object. -/
  | objectCreation (info : OperationInfo) (arguments : List (Argument Operation))
  /-- A new array. -/
  | arrayCreation (info : OperationInfo) (dimensions : List Operation)
  /-- A store of a value. -/
  | assignment (info : OperationInfo) (target value : Operation)
  /-- A call. -/
  | invocation (info : OperationInfo) (method : Symbol) (receiver : Option Operation)
      (arguments : List (Argument Operation))
  /-- A binary operator. -/
  | binary (info : OperationInfo) (operator : BinaryOperator) (left right : Operation)
  /-- A conversion to the operation's type. -/
  | conversion (info : OperationInfo) (operand : Operation)
  /-- A store into a temporary: of the value, or of the storage location itself. -/
  | capture (info : OperationInfo) (capture : CaptureId) (value : Operation) (byLocation : Bool)
  /-- A temporary. -/
  | captureRef (info : OperationInfo) (capture : CaptureId)
  /-- The end of the method, with the value it returns. -/
  | ret (info : OperationInfo) (value : Option Operation)
  /-- An operation of a program that does not compile. -/
  | invalid (info : OperationInfo)
  deriving Repr

namespace Operation

/-- What the operation carries besides its own content. -/
def info : Operation → OperationInfo
  | literal i _ | localRef i _ | parameterRef i _ | receiverRef i | fieldRef i _ _
  | elementRef i _ _ | objectCreation i _ | arrayCreation i _ | assignment i _ _
  | invocation i _ _ _ | binary i _ _ _ | conversion i _ | capture i _ _ _ | captureRef i _
  | ret i _ | invalid i => i

/-- The identifier. -/
def id (op : Operation) : OperationId := op.info.id

/-- The static type of the result. -/
def type (op : Operation) : Option TypeRef := op.info.type

/-- Where the operation stands. -/
def span (op : Operation) : SourceSpan := op.info.span

/-- Whether the result is a reference; without a type it is assumed to be one. -/
def isReferenceType (op : Operation) : Bool := TypeRef.holdsReference op.type

/-- The direct operands in the order of evaluation. -/
def operands : Operation → List Operation
  | literal .. | localRef .. | parameterRef .. | receiverRef .. | captureRef .. | invalid .. => []
  | fieldRef _ owner _ => owner.toList
  | elementRef _ array indices => array :: indices
  | objectCreation _ arguments => arguments.map (·.value)
  | arrayCreation _ dimensions => dimensions
  | assignment _ target value => [target, value]
  | invocation _ _ receiver arguments => receiver.toList ++ arguments.map (·.value)
  | binary _ _ left right => [left, right]
  | conversion _ operand => [operand]
  | capture _ _ value _ => [value]
  | ret _ value => value.toList

/-- Whether the operation names storage that can be read or written. -/
def isReference : Operation → Bool
  | localRef .. | parameterRef .. | receiverRef .. | fieldRef .. | elementRef .. | captureRef .. =>
    true
  | _ => false

/-- Whether the operation stores into a temporary. -/
def isCapture : Operation → Bool
  | capture .. => true
  | _ => false

/-- The constant, if the operation is one. -/
def literal? : Operation → Option Literal
  | literal _ value => some value
  | _ => none

/-! ### All operations of a tree -/

mutual

/-- The operations of the tree, each after its operands. -/
def subtree : Operation → List Operation
  | fieldRef i owner f => subtreeOption owner ++ [fieldRef i owner f]
  | elementRef i array indices => subtree array ++ subtreeList indices ++ [elementRef i array indices]
  | objectCreation i args => subtreeArguments args ++ [objectCreation i args]
  | arrayCreation i dims => subtreeList dims ++ [arrayCreation i dims]
  | assignment i target value => subtree target ++ subtree value ++ [assignment i target value]
  | invocation i m receiver args =>
    subtreeOption receiver ++ subtreeArguments args ++ [invocation i m receiver args]
  | binary i o left right => subtree left ++ subtree right ++ [binary i o left right]
  | conversion i operand => subtree operand ++ [conversion i operand]
  | capture i c value l => subtree value ++ [capture i c value l]
  | ret i value => subtreeOption value ++ [ret i value]
  | op => [op]

/-- The operations below an operand that may be absent. -/
def subtreeOption : Option Operation → List Operation
  | none => []
  | some op => subtree op

/-- The operations below a list of operands. -/
def subtreeList : List Operation → List Operation
  | [] => []
  | op :: ops => subtree op ++ subtreeList ops

/-- The operations below a list of arguments. -/
def subtreeArguments : List (Argument Operation) → List Operation
  | [] => []
  | ⟨_, op, _⟩ :: args => subtree op ++ subtreeArguments args

end

/-- The number of operations of the tree. -/
def treeSize (op : Operation) : Nat := op.subtree.length

end Operation

end Dataflow
