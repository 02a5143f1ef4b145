/-!
# JSON values

The tree of a JSON text. Integers are kept apart from all other numbers, because
only they can be identifiers, limits and literals. Members of objects keep their
order and may repeat: whether a repetition matters is decided where a value is
read.
-/

namespace Dataflow

/-- A JSON value. -/
inductive Json where
  /-- Null. -/
  | null
  /-- A truth value. -/
  | bool (value : Bool)
  /-- A number that is written as an integer. -/
  | integer (value : Int)
  /-- Any other number; nothing here depends on its size. -/
  | real
  /-- A string. -/
  | string (value : String)
  /-- A list of values. -/
  | array (items : List Json)
  /-- A list of named values. -/
  | object (members : List (String × Json))
  /-- Well-formed text that has no value: a number beyond all floating-point
  numbers, half of a surrogate pair, or a nesting that is too deep. -/
  | defective
  deriving Repr

namespace Json

mutual

/-- Whether the value and all values in it exist. -/
def isSound : Json → Bool
  | array items => itemsSound items
  | object members => membersSound members
  | defective => false
  | _ => true

/-- Whether all items exist. -/
def itemsSound : List Json → Bool
  | [] => true
  | j :: js => isSound j && itemsSound js

/-- Whether all members exist. -/
def membersSound : List (String × Json) → Bool
  | [] => true
  | (_, j) :: ms => isSound j && membersSound ms

end

mutual

/-- The number of values on the longest way into the value. -/
def depth : Json → Nat
  | array items => itemsDepth items + 1
  | object members => membersDepth members + 1
  | _ => 1

/-- The greatest depth of the items. -/
def itemsDepth : List Json → Nat
  | [] => 0
  | j :: js => max (depth j) (itemsDepth js)

/-- The greatest depth of the members. -/
def membersDepth : List (String × Json) → Nat
  | [] => 0
  | (_, j) :: ms => max (depth j) (membersDepth ms)

end

mutual

/-- The value with each name at most once in an object: the last member stays. -/
def distinct : Json → Json
  | array items => array (itemsDistinct items)
  | object members => object (membersDistinct members)
  | j => j

/-- The items, each with distinct names. -/
def itemsDistinct : List Json → List Json
  | [] => []
  | j :: js => distinct j :: itemsDistinct js

/-- The members whose name does not occur again, each with distinct names. -/
def membersDistinct : List (String × Json) → List (String × Json)
  | [] => []
  | (k, j) :: ms =>
    if ms.any (·.1 == k) then membersDistinct ms else (k, distinct j) :: membersDistinct ms

end

end Json

end Dataflow
