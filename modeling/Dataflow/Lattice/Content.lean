import Dataflow.Collections.FinSet
import Dataflow.Entity.Contract

/-!
# Literal content

The literals that a value may be. A value may also be something else; then the
literals are given up, and likewise when there are more than twenty of them.
-/

namespace Dataflow

/-- Whether a value may be something other than the literals listed. -/
inductive NonLiteral where
  /-- Nothing is known yet. -/
  | undefined
  /-- The path cannot be taken. -/
  | invalid
  /-- It is one of the literals. -/
  | no
  /-- It may be anything. -/
  | maybe
  deriving DecidableEq, Repr

namespace NonLiteral

/-- What holds if either may hold. -/
def merge : NonLiteral → NonLiteral → NonLiteral
  | undefined, b => b
  | a, undefined => a
  | invalid, b => b
  | a, invalid => a
  | a, b => if a = b then a else maybe

/-- The name of the value. -/
def text : NonLiteral → String
  | undefined => "Undefined"
  | invalid => "Invalid"
  | no => "No"
  | maybe => "Maybe"

end NonLiteral

/-- The literals that a value may be. -/
structure Content where
  /-- The literals. -/
  literals : FinSet Literal
  /-- Whether it may be something else. -/
  state : NonLiteral
  deriving DecidableEq

namespace Content

/-- How many literals are kept at most. -/
def literalCap : Nat := 20

/-! ### Constructors -/

/-- Nothing is known yet. -/
def undefined : Content := ⟨FinSet.empty, .undefined⟩

/-- The path cannot be taken. -/
def invalid : Content := ⟨FinSet.empty, .invalid⟩

/-- Any content. -/
def any : Content := ⟨FinSet.empty, .maybe⟩

/-- One literal. -/
def ofLiteral (l : Literal) : Content := ⟨FinSet.singleton l, .no⟩

/-- A set of literals, or any content if there are too many. -/
def ofLiterals (s : FinSet Literal) (state : NonLiteral) : Checked Content :=
  if s.size > literalCap then .ok any
  else if s.isEmpty && state != .maybe then .error .noLiterals
  else .ok ⟨s, state⟩

/-! ### Parts -/

/-- Whether the value is one of the literals listed. -/
def isLiteral (c : Content) : Bool := c.state == .no && !c.literals.isEmpty

/-- The literal that the value always is. -/
def single? (c : Content) : Option Literal :=
  match c.isLiteral, c.literals.toList with
  | true, [l] => some l
  | _, _ => none

/-- The text of the content: the literals by their texts, or the state if there are none. -/
def text (c : Content) : String :=
  if c.literals.isEmpty then c.state.text
  else "\x7b" ++ Text.commaSeparated (Text.sorted (c.literals.toList.map (·.text))) ++ "\x7d"

/-! ### Operators -/

/-- The results of an operator on every pair of literals, unless one of them is missing. -/
def results? (operator : BinaryOperator) (left right : List Literal) : Option (List Literal) :=
  (left.flatMap fun l => right.map fun r => (l, r)).mapM fun e => operator.evaluate? e.1 e.2

/-- The content of an operator's result: exact on literals if they are few and all
results are literals, and any content otherwise. -/
def binary (operator : BinaryOperator) (left right : Content) : Checked Content :=
  if !left.isLiteral || !right.isLiteral then .ok any
  else if left.literals.size * right.literals.size > literalCap then .ok any
  else
    match results? operator left.literals.toList right.literals.toList with
    | some l => ofLiterals (FinSet.ofList l) .no
    | none => .ok any

/-! ### The lattice -/

/-- The least value. -/
def bottom : Content := undefined

/-- The greatest value. -/
def top : Content := any

/-- What holds if either value may hold. -/
def merge (a b : Content) : Content :=
  if a = b then a
  else
    match a.state.merge b.state with
    | .maybe => any
    | state =>
      let s := a.literals.union b.literals
      if s.size > literalCap then any else ⟨s, state⟩

/-- Merges, and gives up all literals if that adds something to the first value. -/
def widen (previous next : Content) : Content :=
  let merged := merge previous next
  if merged = previous then merged else top

end Content

end Dataflow
