/-!
# Rounding to doubles

A double keeps 53 significant bits of a number; beyond that it stands for the nearest
number it can hold, and for the even one of two that are equally near. This module
rounds natural numbers in exact arithmetic. The main statement, `near_nearest`, says
that rounding moves a number by at most half the distance between its neighbours.
-/

namespace Dataflow

namespace Json

/-- The distance between neighbouring doubles at a natural number, at least one. -/
def spacing (n : Nat) : Nat := 1 <<< (n.log2 - 52)

/-- The double that is nearest to a natural number, of two the even one. -/
def nearest (n : Nat) : Nat :=
  let unit := spacing n
  let below := n / unit
  if 2 * (n % unit) < unit ∨ 2 * (n % unit) = unit ∧ below % 2 = 0 then below * unit
  else (below + 1) * unit

/-- The least number that no double is near to: half-way between the largest double
and the next power of two. -/
def doubleBound : Nat := 1 <<< 1024 - 1 <<< 970

theorem spacing_pos (n : Nat) : 0 < spacing n := by
  rw [spacing, Nat.one_shiftLeft]
  exact Nat.two_pow_pos _

/-- Rounding moves a number by at most half the distance between its neighbours. -/
theorem near_nearest (n : Nat) :
    2 * n ≤ 2 * nearest n + spacing n ∧ 2 * nearest n ≤ 2 * n + spacing n := by
  have split : n / spacing n * spacing n + n % spacing n = n := by
    rw [Nat.mul_comm]; exact Nat.div_add_mod n (spacing n)
  have rest : n % spacing n < spacing n := Nat.mod_lt n (spacing_pos n)
  unfold nearest
  by_cases down : 2 * (n % spacing n) < spacing n ∨
      2 * (n % spacing n) = spacing n ∧ n / spacing n % 2 = 0
  · rw [if_pos down]
    omega
  · rw [if_neg down, Nat.add_mul, Nat.one_mul]
    omega

/-- A number of at most 53 bits is a double. -/
theorem nearest_of_lt {n : Nat} (h : n < 1 <<< 53) : nearest n = n := by
  have unit : spacing n = 1 := by
    by_cases zero : n = 0
    · subst zero; rfl
    · have : n.log2 < 53 := (Nat.log2_lt zero).2 (Nat.one_shiftLeft 53 ▸ h)
      simp [spacing, show n.log2 - 52 = 0 by omega]
  simp [nearest, unit, Nat.mod_one]

example : nearest (1 <<< 53 + 1) = 1 <<< 53 := by decide +kernel
example : nearest (1 <<< 53 + 3) = 1 <<< 53 + 4 := by decide +kernel

end Json

end Dataflow
