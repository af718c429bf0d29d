import Toolpath.Double.Basic

/-! # Decimals

A decimal is a natural coefficient and a power of ten.  `Double.ofDecimal` is the double nearest to
it, whatever the size of the two parts: a coefficient of thousands of digits and an exponent far out
of range are both read exactly before the single rounding.
-/
namespace Toolpath

open CorePowers

/-- The number `coefficient * 10 ^ exponent`. -/
structure Decimal where
  coefficient : Nat
  exponent : Int
  deriving DecidableEq, Repr

/-- How many decimal digits a natural has; zero has none. -/
def digitCount (n : Nat) : Nat := if n = 0 then 0 else digitCount (n / 10) + 1

@[simp] theorem digitCount_zero : digitCount 0 = 0 := by
  unfold digitCount; rfl

theorem digitCount_of_pos {n : Nat} (h : 0 < n) : digitCount n = digitCount (n / 10) + 1 := by
  rw [digitCount, if_neg (Nat.ne_of_gt h)]

/-- A natural has at most `k` digits exactly when it is below `10 ^ k`. -/
theorem digitCount_le_iff {n k : Nat} : digitCount n ≤ k ↔ n < 10 ^ k := by
  induction k generalizing n with
  | zero =>
    rcases Nat.eq_zero_or_pos n with rfl | h
    · simp
    · rw [digitCount_of_pos h]; omega
  | succ k ih =>
    rcases Nat.eq_zero_or_pos n with rfl | h
    · exact iff_of_true (by simp) (Nat.pow_pos (by decide))
    · rw [digitCount_of_pos h, Nat.add_le_add_iff_right, ih, Nat.pow_succ,
        Nat.div_lt_iff_lt_mul (by decide)]

namespace Decimal

/-- The numerator of the number as a fraction. -/
def numerator (d : Decimal) : Nat := d.coefficient * 10 ^ d.exponent.toNat

/-- The denominator of the number as a fraction. -/
def denominator (d : Decimal) : Nat := 10 ^ (-d.exponent).toNat

theorem denominator_pos (d : Decimal) : 0 < d.denominator := Nat.pow_pos (by decide)

/-- The same number with no zero at the end of its coefficient. -/
def stripZeros (d : Decimal) : Decimal :=
  if d.coefficient ≠ 0 ∧ d.coefficient % 10 = 0 then
    stripZeros ⟨d.coefficient / 10, d.exponent + 1⟩
  else d
termination_by d.coefficient
decreasing_by omega

end Decimal

/-- The double nearest to a decimal.  From `10 ^ 401` on every decimal is infinite and below
`10 ^ -400` every one is zero, so that the powers computed stay small. -/
def Double.ofDecimal (negative : Bool) (d : Decimal) : Double :=
  if d.coefficient = 0 ∨ d.exponent + digitCount d.coefficient < -400 then zero negative
  else if 400 < d.exponent then infinite negative
  else ofRatio negative (d.numerator * unitsPerOne) d.denominator

end Toolpath
