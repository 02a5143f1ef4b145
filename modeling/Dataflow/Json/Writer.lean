import Dataflow.Json.Basic

/-!
# Writing JSON text

The shortest text of a value: no blanks, and only the characters escaped that
must be.
-/

namespace Dataflow

namespace Json

/-- One character between quotes. -/
def escape (c : Char) : List Char :=
  if c = '"' then ['\\', '"']
  else if c = '\\' then ['\\', '\\']
  else if c = '\n' then ['\\', 'n']
  else if c = '\r' then ['\\', 'r']
  else if c = '\t' then ['\\', 't']
  else if c.toNat < 0x20 then
    ['\\', 'u', '0', '0', Nat.digitChar (c.toNat / 16), Nat.digitChar (c.toNat % 16)]
  else [c]

/-- Writes a string behind a text. -/
def writeString (out s : String) : String :=
  (s.toList.foldl (fun out c => (escape c).foldl String.push out) (out.push '"')).push '"'

mutual

/-- Writes a value behind a text. Numbers other than integers and values that do
not exist have no text of their own and are written as null. -/
def write (out : String) : Json → String
  | null | real | defective => out ++ "null"
  | bool true => out ++ "true"
  | bool false => out ++ "false"
  | integer n => out ++ toString n
  | string s => writeString out s
  | array [] => out ++ "[]"
  | array (j :: js) => (writeItems (write (out.push '[') j) js).push ']'
  | object [] => out ++ "\x7b\x7d"
  | object ((k, j) :: ms) =>
    (writeMembers (write ((writeString (out.push '\x7b') k).push ':') j) ms).push '\x7d'

/-- Writes further items behind a text. -/
def writeItems (out : String) : List Json → String
  | [] => out
  | j :: js => writeItems (write (out.push ',') j) js

/-- Writes further members behind a text. -/
def writeMembers (out : String) : List (String × Json) → String
  | [] => out
  | (k, j) :: ms => writeMembers (write ((writeString (out.push ',') k).push ':') j) ms

end

/-- The text of a value. -/
def text (j : Json) : String := write "" j

end Json

end Dataflow
