import Dataflow.Json.Numeral

/-!
# Reading JSON text

`Json.parse?` reads a whole text. The grammar is the standard one: no comments,
no trailing commas, no leading zeros, no control characters in strings. Arrays and
objects nest up to a given number of levels; what lies deeper is checked for its
form, but has no value.

Each function takes the characters that are left and returns those that it did
not need. Whatever calls itself first takes at least one character away, so the
number of characters bounds the work.
-/

namespace Dataflow

namespace Json

/-- The characters after white space. -/
def skipBlanks (cs : List Char) : List Char :=
  cs.dropWhile fun c => c == ' ' || c == '\n' || c == '\t' || c == '\r'

/-- The characters after an expected word. -/
def expect? (word : String) (cs : List Char) : Option (List Char) :=
  let w := word.toList
  if w.isPrefixOf cs then some (cs.drop w.length) else none

/-! ### Strings -/

/-- The value of a hexadecimal digit. -/
def hexDigit? (c : Char) : Option Nat :=
  if '0' ≤ c ∧ c ≤ '9' then some (c.toNat - '0'.toNat)
  else if 'a' ≤ c ∧ c ≤ 'f' then some (c.toNat - 'a'.toNat + 10)
  else if 'A' ≤ c ∧ c ≤ 'F' then some (c.toNat - 'A'.toNat + 10)
  else none

/-- Four hexadecimal digits, and the rest. -/
def hexUnit? : List Char → Option (Nat × List Char)
  | a :: b :: c :: d :: rest => do
    let a ← hexDigit? a
    let b ← hexDigit? b
    let c ← hexDigit? c
    let d ← hexDigit? d
    return (((a * 16 + b) * 16 + c) * 16 + d, rest)
  | _ => none

/-- The character of an escape that is a single letter. -/
def escaped? : Char → Option Char
  | '"' => some '"'
  | '\\' => some '\\'
  | '/' => some '/'
  | 'b' => some '\x08'
  | 'f' => some '\x0c'
  | 'n' => some '\n'
  | 'r' => some '\r'
  | 't' => some '\t'
  | _ => none

/-- Whether the unit opens a surrogate pair. -/
def isHighSurrogate (n : Nat) : Bool := 0xD800 ≤ n && n < 0xDC00

/-- Whether the unit closes a surrogate pair. -/
def isLowSurrogate (n : Nat) : Bool := 0xDC00 ≤ n && n < 0xE000

/-- One character of a string, or none if it is half of a surrogate pair, and the
rest. The characters begin after the backslash of an escape with a number. -/
def unit? (cs : List Char) : Option (Option Char × List Char) := do
  let (n, rest) ← hexUnit? cs
  if isHighSurrogate n then
    match rest with
    | '\\' :: 'u' :: rest' =>
      let (m, rest'') ← hexUnit? rest'
      if isLowSurrogate m then
        return (some (Char.ofNat (0x10000 + (n - 0xD800) * 0x400 + (m - 0xDC00))), rest'')
      else return (none, rest)
    | _ => return (none, rest)
  else if isLowSurrogate n then return (none, rest)
  else return (some (Char.ofNat n), rest)

/-- The characters of a string up to its closing quote, and the rest. The string
itself is missing if a part of it has no value. -/
def stringTail? : (fuel : Nat) → List Char → List Char → Bool → Option (Option String × List Char)
  | 0, _, _, _ => none
  | fuel + 1, cs, reversed, sound =>
    match cs with
    | [] => none
    | '"' :: rest => some (if sound then some (String.ofList reversed.reverse) else none, rest)
    | '\\' :: 'u' :: rest =>
      match unit? rest with
      | none => none
      | some (some c, rest) => stringTail? fuel rest (c :: reversed) sound
      | some (none, rest) => stringTail? fuel rest reversed false
    | '\\' :: e :: rest =>
      match escaped? e with
      | none => none
      | some c => stringTail? fuel rest (c :: reversed) sound
    | c :: rest => if c.toNat < 0x20 || c == '\\' then none else stringTail? fuel rest (c :: reversed) sound

/-- A string after its opening quote, and the rest. -/
def string? (cs : List Char) : Option (Option String × List Char) :=
  stringTail? (cs.length + 1) cs [] true

/-! ### Values -/

mutual

/-- A value and the rest. `levels` is the number of levels that may still be opened. -/
def value? : (fuel levels : Nat) → List Char → Option (Json × List Char)
  | 0, _, _ => none
  | fuel + 1, levels, cs =>
    match skipBlanks cs with
    | 'n' :: rest => (expect? "ull" rest).map fun rest => (null, rest)
    | 't' :: rest => (expect? "rue" rest).map fun rest => (bool true, rest)
    | 'f' :: rest => (expect? "alse" rest).map fun rest => (bool false, rest)
    | '"' :: rest =>
      (string? rest).map fun (s, rest) => (match s with | some s => string s | none => defective, rest)
    | '[' :: rest =>
      (items? fuel (levels - 1) rest).map fun (items, rest) =>
        (if levels = 0 then defective else array items, rest)
    | '\x7b' :: rest =>
      (members? fuel (levels - 1) rest).map fun (members, rest) =>
        (match members with
          | some members => if levels = 0 then defective else object members
          | none => defective, rest)
    | cs => (numeral? cs).map fun (n, rest) => (n.value, rest)

/-- The items of an array after its opening bracket, and the rest. -/
def items? : (fuel levels : Nat) → List Char → Option (List Json × List Char)
  | 0, _, _ => none
  | fuel + 1, levels, cs =>
    match skipBlanks cs with
    | ']' :: rest => some ([], rest)
    | cs => do
      let (j, rest) ← value? fuel levels cs
      let (js, rest) ← moreItems? fuel levels rest
      return (j :: js, rest)

/-- The items after an item, and the rest. -/
def moreItems? : (fuel levels : Nat) → List Char → Option (List Json × List Char)
  | 0, _, _ => none
  | fuel + 1, levels, cs =>
    match skipBlanks cs with
    | ']' :: rest => some ([], rest)
    | ',' :: rest => do
      let (j, rest) ← value? fuel levels rest
      let (js, rest) ← moreItems? fuel levels rest
      return (j :: js, rest)
    | _ => none

/-- A member of an object, and the rest. The member is missing if its name has no value. -/
def member? : (fuel levels : Nat) → List Char → Option (Option (String × Json) × List Char)
  | 0, _, _ => none
  | fuel + 1, levels, cs =>
    match skipBlanks cs with
    | '"' :: rest => do
      let (name, rest) ← string? rest
      match skipBlanks rest with
      | ':' :: rest =>
        let (j, rest) ← value? fuel levels rest
        return (name.map fun name => (name, j), rest)
      | _ => none
    | _ => none

/-- The members of an object after its opening brace, and the rest. They are missing
if one of them is. -/
def members? : (fuel levels : Nat) → List Char → Option (Option (List (String × Json)) × List Char)
  | 0, _, _ => none
  | fuel + 1, levels, cs =>
    match skipBlanks cs with
    | '\x7d' :: rest => some (some [], rest)
    | cs => do
      let (m, rest) ← member? fuel levels cs
      let (ms, rest) ← moreMembers? fuel levels rest
      return ((do return (← m) :: (← ms)), rest)

/-- The members after a member, and the rest. -/
def moreMembers? : (fuel levels : Nat) → List Char →
    Option (Option (List (String × Json)) × List Char)
  | 0, _, _ => none
  | fuel + 1, levels, cs =>
    match skipBlanks cs with
    | '\x7d' :: rest => some (some [], rest)
    | ',' :: rest => do
      let (m, rest) ← member? fuel levels rest
      let (ms, rest) ← moreMembers? fuel levels rest
      return ((do return (← m) :: (← ms)), rest)
    | _ => none

end

/-- The value of a whole text that nests at most `levels` deep; none if the text is
not JSON. -/
def parse? (levels : Nat) (text : String) : Option Json :=
  let cs := text.toList
  match value? (2 * cs.length + 4) levels cs with
  | some (j, rest) => if (skipBlanks rest).isEmpty then some j else none
  | none => none

/-- How many levels the text of a file may nest. -/
def fileLevels : Nat := 127

end Json

end Dataflow
