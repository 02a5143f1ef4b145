import Dataflow.Entity.Contract
import Dataflow.Graph.Basic
import Dataflow.Json.Basic

/-!
# Decoding JSON values

Small decoders, from which the decoders of the program's types are built. A
record is an object whose unknown members are ignored, or the array of its fields
in their order. A choice is its name, or an object with its name as the only
member and its content as the value.
-/

namespace Dataflow

/-- Why a value cannot be decoded. -/
inductive DecodeError where
  /-- The value has another form than the one asked for. -/
  | mismatch
  /-- A graph in the value breaks a rule. -/
  | malformed (e : GraphError)
  /-- An abstract value in the value breaks a rule. -/
  | violated (v : Violation)
  deriving DecidableEq, Repr

/-- The result of decoding. -/
abbrev Decoded (α : Type) := Except DecodeError α

namespace Json

/-! ### Plain values -/

/-- A string. -/
def asString : Json → Decoded String
  | string s => .ok s
  | _ => .error .mismatch

/-- A truth value. -/
def asBool : Json → Decoded Bool
  | bool b => .ok b
  | _ => .error .mismatch

/-- An integer between two bounds. -/
def asIntegerIn (low high : Int) : Json → Decoded Int
  | integer n => if low ≤ n ∧ n ≤ high then .ok n else .error .mismatch
  | _ => .error .mismatch

/-- A 32-bit number. -/
def asUInt32 (j : Json) : Decoded UInt32 :=
  (asIntegerIn 0 (UInt32.size - 1 : Nat) j).map fun n => UInt32.ofNat n.toNat

/-- A 64-bit number. -/
def asUInt64 (j : Json) : Decoded UInt64 :=
  (asIntegerIn 0 (UInt64.size - 1 : Nat) j).map fun n => UInt64.ofNat n.toNat

/-- A 64-bit integer with sign. -/
def asInt64 (j : Json) : Decoded Int64 :=
  (asIntegerIn Int64.minValue.toInt Int64.maxValue.toInt j).map Int64.ofInt

/-- A list. -/
def asList {α : Type} (item : Json → Decoded α) : Json → Decoded (List α)
  | array items => items.mapM item
  | _ => .error .mismatch

/-- A value or null. -/
def asOption {α : Type} (value : Json → Decoded α) : Json → Decoded (Option α)
  | null => .ok none
  | j => (value j).map some

/-! ### Records -/

/-- The values of the named fields. Each name occurs at most once. -/
def fields (names : List String) : Json → Decoded (List (Option Json))
  | object members => names.mapM fun name =>
    match members.filter (·.1 == name) with
    | [] => .ok none
    | [(_, j)] => .ok (some j)
    | _ => .error .mismatch
  | array items =>
    if items.length ≤ names.length then
      .ok (items.map some ++ List.replicate (names.length - items.length) none)
    else .error .mismatch
  | _ => .error .mismatch

/-- The value of a field that must be there. -/
def required {α : Type} (value : Json → Decoded α) : Option Json → Decoded α
  | some j => value j
  | none => .error .mismatch

/-- The value of a field that may be left out. -/
def orElse {α : Type} (default : α) (value : Json → Decoded α) : Option Json → Decoded α
  | some j => value j
  | none => .ok default

/-- The value of a field that may be left out or null. -/
def optional {α : Type} (value : Json → Decoded α) : Option Json → Decoded (Option α)
  | some j => asOption value j
  | none => .ok none

/-- The value of a field that may be left out or null. -/
def usually {α : Type} (default : α) (value : Json → Decoded α) (field : Option Json) : Decoded α :=
  (optional value field).map (·.getD default)

/-- The values of the named fields of a record that is always an object. -/
def members (names : List String) : Json → Decoded (List (Option Json))
  | object members => fields names (object members)
  | _ => .error .mismatch

/-! ### Choices -/

/-- The name of a choice and its content. -/
def asChoice : Json → Decoded (String × Option Json)
  | string name => .ok (name, none)
  | object [(name, j)] => .ok (name, some j)
  | _ => .error .mismatch

/-- The name of a choice and its content, which is null if it is left out. -/
def asTagged : Json → Decoded (String × Json)
  | string name => .ok (name, null)
  | object [(name, j)] => .ok (name, j)
  | _ => .error .mismatch

/-- A choice without content, which may be written as null. -/
def unit {α : Type} (value : α) : Option Json → Decoded α
  | none | some null => .ok value
  | _ => .error .mismatch

/-- The fields of a choice whose content is a record; it is always an object. -/
def fieldsOfChoice (names : List String) : Option Json → Decoded (List (Option Json))
  | some j => members names j
  | none => .error .mismatch

/-! ### Encoding -/

/-- Null for nothing. -/
def ofOption {α : Type} (value : α → Json) : Option α → Json
  | none => null
  | some x => value x

/-- A list of values. -/
def ofList {α : Type} (item : α → Json) (l : List α) : Json := array (l.map item)

/-- A 32-bit number. -/
def ofUInt32 (n : UInt32) : Json := integer n.toNat

/-- A 64-bit number. -/
def ofUInt64 (n : UInt64) : Json := integer n.toNat

end Json

end Dataflow
