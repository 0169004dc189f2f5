import Chen.Python.Exception
import Mathlib.Data.Rat.Defs
import Mathlib.Order.Basic
import Mathlib.Algebra.Order.Ring.Rat

/-!
# Floating-point numbers

The arithmetic of `float` is a parameter: nothing depends on how it rounds. What is fixed is the
order of the numbers, in which equal numbers (`0.0` and `-0.0`) are one.
-/

namespace Chen

/-- The `float` values that are numbers. -/
class PyFloat (R : Type) extends LinearOrder R, Add R, Mul R, Div R, Neg R where
  /-- A literal, or the conversion of an exact number. -/
  lit : ℚ → R
  /-- `math.exp`, which raises `OverflowError` on a result that is out of range. -/
  exp : R → Except Exn R
  /-- `x ** 0.5`. -/
  sqrt : R → R

/-- Exact rationals, with the exponential and the root linearised at 0 and at 1. -/
@[reducible] def PyFloat.rat : PyFloat ℚ where
  lit := id
  exp x := .ok (1 + x)
  sqrt x := (1 + x) / 2

end Chen
