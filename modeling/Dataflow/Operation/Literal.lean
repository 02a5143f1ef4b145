import Dataflow.Collections.Comparison
import Dataflow.Text.Quoted

/-!
# Literals

The constants of the analysed program, and the binary operators on them. The
order of literals is by kind first: null, truth values, integers, strings.
-/

namespace Dataflow

/-- A constant of the analysed program. -/
inductive Literal where
  /-- The null reference. -/
  | null
  /-- A truth value. -/
  | bool (value : Bool)
  /-- A 64-bit integer. -/
  | integer (value : Int64)
  /-- A string. -/
  | string (value : String)
  deriving DecidableEq, Repr

namespace Literal

/-- The place of the literal's kind in the order of kinds. -/
def rank : Literal → Nat
  | null => 0
  | bool _ => 1
  | integer _ => 2
  | string _ => 3

/-- The truth value, false for other kinds. -/
def toBool : Literal → Bool
  | bool b => b
  | _ => false

/-- The integer, zero for other kinds. -/
def toInteger : Literal → Int64
  | integer i => i
  | _ => 0

/-- The characters of a string, none for other kinds. -/
def toChars : Literal → String
  | string s => s
  | _ => ""

instance : Ord Literal :=
  ⟨compareLex (compareOn rank) <| compareLex (compareOn toBool) <|
    compareLex (compareOn toInteger) (compareOn toChars)⟩

instance : Std.TransOrd Literal :=
  inferInstanceAs (Std.TransCmp <| compareLex (compareOn rank) <| compareLex (compareOn toBool) <|
    compareLex (compareOn toInteger) (compareOn toChars))

instance : Std.LawfulEqOrd Literal :=
  lawfulEqOrd_of fun a b h => by
    obtain ⟨h₁, h⟩ := compareLex_eq_iff.1 h
    obtain ⟨h₂, h⟩ := compareLex_eq_iff.1 h
    obtain ⟨h₃, h₄⟩ := compareLex_eq_iff.1 h
    rw [compareOn_eq_iff] at h₁ h₂ h₃ h₄
    cases a <;> cases b <;> simp_all [rank, toBool, toInteger, toChars]

/-- A literal as it is written in the text of an operation. -/
def text : Literal → String
  | null => "null"
  | bool true => "true"
  | bool false => "false"
  | integer i => toString i.toInt
  | string s => Text.quoted s

end Literal

/-- A binary operator. -/
inductive BinaryOperator where
  /-- Sum of integers, concatenation of strings. -/
  | add
  /-- Difference of integers. -/
  | subtract
  /-- Product of integers. -/
  | multiply
  /-- Equality of any two values. -/
  | equals
  /-- Inequality of any two values. -/
  | notEquals
  /-- Concatenation of strings. -/
  | concatenate
  deriving DecidableEq, Repr

namespace BinaryOperator

/-- The operator's sign. -/
def sign : BinaryOperator → String
  | add => "+"
  | subtract => "-"
  | multiply => "*"
  | equals => "=="
  | notEquals => "!="
  | concatenate => "&"

/-- The operator's name. -/
def text : BinaryOperator → String
  | add => "Add"
  | subtract => "Subtract"
  | multiply => "Multiply"
  | equals => "Equals"
  | notEquals => "NotEquals"
  | concatenate => "Concatenate"

end BinaryOperator

/-- The integer as a 64-bit literal, unless it does not fit. -/
def Literal.ofInt? (n : Int) : Option Literal :=
  if Int64.minValue.toInt ≤ n ∧ n ≤ Int64.maxValue.toInt then some (.integer (Int64.ofInt n))
  else none

/-- The result of an operator on two literals. There is none where the operator
does not apply to such operands or the integer result leaves the 64-bit range. -/
def BinaryOperator.evaluate? (operator : BinaryOperator) (left right : Literal) : Option Literal :=
  match operator, left, right with
  | equals, l, r => some (.bool (l == r))
  | notEquals, l, r => some (.bool (l != r))
  | add, .integer a, .integer b => Literal.ofInt? (a.toInt + b.toInt)
  | subtract, .integer a, .integer b => Literal.ofInt? (a.toInt - b.toInt)
  | multiply, .integer a, .integer b => Literal.ofInt? (a.toInt * b.toInt)
  | add, .string a, .string b | concatenate, .string a, .string b => some (.string (a ++ b))
  | _, _, _ => none

end Dataflow
