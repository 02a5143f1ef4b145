import Dataflow.Text.Unprintable
import Dataflow.Text.Extending

/-!
# Quoted text

A string value is shown between double quotes with every character visible. The
quote and the backslash are escaped, five controls have names, and any other
character that would not show on its own is written by its number.
-/

namespace Dataflow.Text

/-- The number of a character in hexadecimal digits, as in `\u{301}`. -/
def numbered (c : Char) : List Char :=
  ['\\', 'u', '\x7b'] ++ Nat.toDigits 16 c.toNat ++ ['\x7d']

/-- One character as it stands between the quotes. -/
def shown (c : Char) : List Char :=
  if c = '\x00' then ['\\', '0']
  else if c = '\t' then ['\\', 't']
  else if c = '\r' then ['\\', 'r']
  else if c = '\n' then ['\\', 'n']
  else if c = '"' then ['\\', '"']
  else if c = '\\' then ['\\', '\\']
  else if isExtending c || isUnprintable c then numbered c
  else [c]

/-- The text between double quotes. -/
def quoted (s : String) : String :=
  String.ofList (['"'] ++ s.toList.flatMap shown ++ ['"'])

/-- Texts separated by commas. -/
def commaSeparated (l : List String) : String := ", ".intercalate l

/-- The texts in ascending order. -/
def sorted (l : List String) : List String := l.mergeSort fun a b => compare a b != .gt

example : quoted "it's" = "\"it's\"" := by decide +kernel
example : quoted "a\"b\\\t" = "\"a\\\"b\\\\\\t\"" := by decide +kernel
example : quoted "\u0301" = "\"\\u\x7b301\x7d\"" := by decide +kernel

end Dataflow.Text
