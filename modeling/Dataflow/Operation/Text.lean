import Dataflow.Operation.Basic

/-!
# The text of operations

An operation is written the way a C-like language writes it, on one line. Only
the operations that cannot be told apart otherwise show a type.
-/

namespace Dataflow

namespace Operation

mutual

/-- The text of an operation. -/
def text : Operation → String
  | literal _ value => value.text
  | localRef _ symbol | parameterRef _ symbol => symbol.name
  | receiverRef _ => "this"
  | fieldRef _ none field => field.text
  | fieldRef _ (some owner) field => text owner ++ "." ++ field.name
  | elementRef _ array indices =>
    text array ++ "[" ++ Text.commaSeparated (texts indices) ++ "]"
  | objectCreation info arguments =>
    "new " ++ TypeRef.nameOrUnknown info.type ++
      "(" ++ Text.commaSeparated (argumentTexts arguments) ++ ")"
  | arrayCreation info dimensions =>
    "new " ++ TypeRef.nameOrUnknown info.type ++
      "[" ++ Text.commaSeparated (texts dimensions) ++ "]"
  | assignment _ target value => text target ++ " = " ++ text value
  | invocation _ method none arguments =>
    method.text ++ "(" ++ Text.commaSeparated (argumentTexts arguments) ++ ")"
  | invocation _ method (some receiver) arguments =>
    text receiver ++ "." ++ method.name ++
      "(" ++ Text.commaSeparated (argumentTexts arguments) ++ ")"
  | binary _ operator left right =>
    "(" ++ text left ++ " " ++ operator.sign ++ " " ++ text right ++ ")"
  | conversion info operand => "(" ++ TypeRef.nameOrUnknown info.type ++ ")" ++ text operand
  | capture _ c value byLocation =>
    c.text ++ (if byLocation then " = &" else " = ") ++ text value
  | captureRef _ c => c.text
  | ret _ none => "return"
  | ret _ (some value) => "return " ++ text value
  | invalid _ => "<invalid>"

/-- The texts of operands. -/
def texts : List Operation → List String
  | [] => []
  | op :: ops => text op :: texts ops

/-- The texts of arguments, which are the texts of their values. -/
def argumentTexts : List (Argument Operation) → List String
  | [] => []
  | ⟨_, op, _⟩ :: args => text op :: argumentTexts args

end

end Operation

end Dataflow
