import Dataflow.Json.Basic
import Dataflow.Json.Rounding

/-!
# Numbers as they are written

A number without point and exponent is an integer if it fits 64 bits. Any other number
is read as a 64-bit significand and a power of ten: digits before the point that find
no room in the significand raise the power, digits after the point that find none are
dropped. The significand and the power are rounded to doubles before they are
multiplied, and the number has no value if the product is beyond all doubles.
-/

namespace Dataflow

namespace Json

/-! ### The written form -/

/-- A number as it is written. -/
structure Numeral where
  /-- Whether there is a minus sign. -/
  negative : Bool
  /-- The digits before the point. -/
  whole : List Char
  /-- The digits after the point. -/
  fraction : Option (List Char)
  /-- The exponent's sign and digits. -/
  exponent : Option (Bool × List Char)
  deriving DecidableEq, Repr

/-- The number that digits stand for. -/
def digitsValue (ds : List Char) : Nat := ds.foldl (fun n c => 10 * n + (c.toNat - '0'.toNat)) 0

/-- The leading digits, at least one, and the rest. -/
def digits? (cs : List Char) : Option (List Char × List Char) :=
  match cs.takeWhile Char.isDigit with
  | [] => none
  | ds => some (ds, cs.dropWhile Char.isDigit)

/-- The digits before the point: a lone zero, or digits that start with another. -/
def whole? (cs : List Char) : Option (List Char × List Char) :=
  match digits? cs with
  | some ('0' :: _ :: _, _) => none
  | r => r

/-- The point and the digits after it, if there is a point. -/
def fraction? (cs : List Char) : Option (Option (List Char) × List Char) :=
  match cs with
  | '.' :: cs => (digits? cs).map fun (ds, rest) => (some ds, rest)
  | _ => some (none, cs)

/-- The exponent, if there is one. -/
def exponent? (cs : List Char) : Option (Option (Bool × List Char) × List Char) :=
  let after (negative : Bool) (cs : List Char) :=
    (digits? cs).map fun (ds, rest) => (some (negative, ds), rest)
  match cs with
  | 'e' :: '-' :: cs | 'E' :: '-' :: cs => after true cs
  | 'e' :: '+' :: cs | 'E' :: '+' :: cs => after false cs
  | 'e' :: cs | 'E' :: cs => after false cs
  | _ => some (none, cs)

/-- A number as it is written, and the rest. -/
def numeral? (cs : List Char) : Option (Numeral × List Char) := do
  let (negative, cs) := match cs with
    | '-' :: cs => (true, cs)
    | _ => (false, cs)
  let (whole, cs) ← whole? cs
  let (fraction, cs) ← fraction? cs
  let (exponent, cs) ← exponent? cs
  return (⟨negative, whole, fraction, exponent⟩, cs)

/-! ### Its size -/

/-- Takes digits into a number as long as it fits 64 bits; gives the number, and the
digits that are left. -/
def takeDigits (n : Nat) : List Char → Nat × List Char
  | [] => (n, [])
  | c :: cs =>
    let longer := 10 * n + (c.toNat - '0'.toNat)
    if longer < UInt64.size then takeDigits longer cs else (n, c :: cs)

/-- The exponent that is written, zero if there is none. -/
def Numeral.writtenPower (n : Numeral) : Int :=
  match n.exponent with
  | none => 0
  | some (true, ds) => - digitsValue ds
  | some (false, ds) => digitsValue ds

/-- The significand, and the power of ten that it is multiplied by. -/
def Numeral.scaled (n : Numeral) : Nat × Int :=
  let fraction := n.fraction.getD []
  let (whole, raising) := takeDigits 0 n.whole
  let (significand, dropped) := takeDigits whole fraction
  (significand, n.writtenPower + raising.length - (fraction.length - dropped.length))

/-- Whether a number is too large for a double. A negative power cannot make it so; a
positive one must itself be in the range of doubles. -/
def Numeral.isTooLarge (n : Numeral) : Bool :=
  let (significand, power) := n.scaled
  if significand = 0 || power < 0 then false
  else if power > 308 then true
  else nearest significand * nearest (Nat.pow 10 power.toNat) ≥ doubleBound

/-- The value of a number. An integer has neither point nor exponent, fits 64 bits
with or without sign, and is not a negative zero. -/
def Numeral.value (n : Numeral) : Json :=
  let size := digitsValue n.whole
  let plain := n.fraction.isNone && n.exponent.isNone
  if plain && !n.negative && size < UInt64.size then integer size
  else if plain && n.negative && 0 < size && 2 * size ≤ UInt64.size then integer (- size)
  else if n.isTooLarge then defective
  else real

/-! ### Laws -/

/-- What is taken fits 64 bits. -/
theorem takeDigits_lt {n : Nat} (h : n < UInt64.size) (ds : List Char) : (takeDigits n ds).1 < UInt64.size := by
  induction ds generalizing n with
  | nil => exact h
  | cons c cs ih =>
    rw [takeDigits]
    split
    · exact ih ‹_›
    · exact h

/-- Digits are taken from the left. -/
theorem takeDigits_suffix (n : Nat) (ds : List Char) : (takeDigits n ds).2 <:+ ds := by
  induction ds generalizing n with
  | nil => exact List.suffix_refl []
  | cons c cs ih =>
    rw [takeDigits]
    split
    · exact (ih _).trans (List.suffix_cons c cs)
    · exact List.suffix_refl _

/-- The largest double is not too large. -/
example : Numeral.isTooLarge ⟨false, ['1'], some "7976931348623157".toList, some (false, "308".toList)⟩
    = false := by decide +kernel

/-- The same number with more zeros is: its significand and its power are rounded apart. -/
example : Numeral.isTooLarge ⟨false, "179769313486231570000".toList, none, some (false, "288".toList)⟩
    = true := by decide +kernel

end Json

end Dataflow
