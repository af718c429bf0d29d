import Toolpath.Proofs.DecimalSteps
import Mathlib.Algebra.Order.Field.Rat
import Mathlib.Algebra.Order.Round
import Mathlib.Data.Rat.Floor
import Mathlib.Data.Rat.Cast.Order
import Mathlib.Tactic.FieldSimp
import Mathlib.Tactic.Positivity

/-! # Exact values and the integers next to them

A finite double stands for an exact number (`Double.value`), and rounding is a rule about exact
numbers: take the nearest integer, and where two are just as near, the even one or the one further
from zero (`IsNearest`).  The rule leaves no choice (`IsNearest.unique`) and keeps the order of what
it is applied to (`IsNearest.mono`), and it does the same on both sides of zero (`IsNearest.neg`).
`roundDiv` follows it (`isNearest_roundDiv`), and so does every number of steps that is computed
from a double (`Double.isNearest_nearestSteps`).
-/
namespace Toolpath

/-! ## Nearest integers -/

/-- Whether a tie between two integers may go to the first. -/
def Tie.Prefers : Tie → ℤ → ℤ → Prop
  | .toEven, i, _ => i % 2 = 0
  | .away, i, j => |j| ≤ |i|

/-- An integer as near to an exact number as any other, and preferred to all that are just as
near. -/
structure IsNearest (tie : Tie) (x : ℚ) (i : ℤ) : Prop where
  le : ∀ j : ℤ, |(i : ℚ) - x| ≤ |(j : ℚ) - x|
  prefers : ∀ j : ℤ, j ≠ i → |(j : ℚ) - x| = |(i : ℚ) - x| → tie.Prefers i j

/-- Of two integers in a row only one is preferred. -/
theorem Tie.not_prefers_both (tie : Tie) {i j : ℤ} (hsucc : i = j + 1) (hij : tie.Prefers i j)
    (hji : tie.Prefers j i) : False := by
  cases tie with
  | toEven =>
    simp only [Prefers] at hij hji
    omega
  | away =>
    simp only [Prefers] at hij hji
    have hsame := le_antisymm hij hji
    rcases abs_eq_abs.mp hsame with h | h <;> omega

section Middle
variable {K : Type*} [CommRing K] [LinearOrder K] [IsStrictOrderedRing K] {low high x : K}

/-- What is nearer to the upper of two numbers lies beyond their middle. -/
theorem add_le_two_mul_of_abs_le (hlt : low < high) (h : |high - x| ≤ |low - x|) :
    high + low ≤ 2 * x := by
  by_contra hgt
  have hgt' : 2 * x < high + low := not_le.mp hgt
  rw [abs_of_pos (by linarith : 0 < high - x)] at h
  rcases abs_cases (low - x) with ⟨heq, -⟩ | ⟨heq, -⟩ <;> linarith

/-- What is nearer to the lower of two numbers lies before their middle. -/
theorem two_mul_le_add_of_abs_le (hlt : low < high) (h : |low - x| ≤ |high - x|) :
    2 * x ≤ high + low := by
  by_contra hgt
  have hgt' : high + low < 2 * x := not_le.mp hgt
  rw [abs_of_neg (by linarith : low - x < 0)] at h
  rcases abs_cases (high - x) with ⟨heq, -⟩ | ⟨heq, -⟩ <;> linarith

end Middle

namespace IsNearest
variable {tie : Tie} {x y : ℚ} {i j : ℤ}

/-- **Rounding keeps the order.**  Were the results the other way round, both numbers would be the
middle between them, and only one of the two results is preferred there. -/
theorem mono (hxy : x ≤ y) (hx : IsNearest tie x i) (hy : IsNearest tie y j) : i ≤ j := by
  by_contra hgt
  have hlt : j < i := not_le.mp hgt
  have hlt' : (j : ℚ) < i := by exact_mod_cast hlt
  have hlow := add_le_two_mul_of_abs_le hlt' (hx.le j)
  have hhigh := two_mul_le_add_of_abs_le hlt' (hy.le i)
  obtain rfl : x = y := by linarith
  have hmiddle : 2 * x = i + j := by linarith
  have htie : |(j : ℚ) - x| = |(i : ℚ) - x| := le_antisymm (hy.le i) (hx.le j)
  have hsucc : i = j + 1 := by
    -- an integer between the two would be nearer than both
    by_contra hne
    have hgap : (j : ℚ) + 2 ≤ i := by exact_mod_cast (by omega : j + 2 ≤ i)
    have hnear := hy.le (j + 1)
    push_cast at hnear
    rw [abs_of_neg (by linarith : (j : ℚ) - x < 0),
      abs_of_nonpos (by linarith : (j : ℚ) + 1 - x ≤ 0)] at hnear
    linarith
  exact tie.not_prefers_both hsucc (hx.prefers j (ne_of_lt hlt) htie)
    (hy.prefers i (ne_of_gt hlt) htie.symm)

/-- **There is one nearest integer.** -/
theorem unique (hi : IsNearest tie x i) (hj : IsNearest tie x j) : i = j :=
  le_antisymm (mono (le_refl x) hi hj) (mono (le_refl x) hj hi)

/-- The nearest integer is at most half a unit away. -/
theorem abs_sub_le_half (h : IsNearest tie x i) : |(i : ℚ) - x| ≤ 1 / 2 := by
  have hround := abs_sub_round x
  rw [abs_sub_comm] at hround
  exact le_trans (h.le (round x)) hround

/-- Rounding does the same on both sides of zero. -/
theorem neg (h : IsNearest tie x i) : IsNearest tie (-x) (-i) := by
  have hflip (k : ℤ) : |((-k : ℤ) : ℚ) - x| = |(k : ℚ) - -x| := by
    rw [← abs_neg]
    congr 1
    push_cast
    ring
  have hself : |((-i : ℤ) : ℚ) - -x| = |(i : ℚ) - x| := by
    rw [← hflip (-i), neg_neg]
  refine ⟨fun j => ?_, fun j hne heq => ?_⟩
  · rw [hself, ← hflip]
    exact h.le (-j)
  · rw [hself, ← hflip] at heq
    have hprefers := h.prefers (-j) (by omega) heq
    cases tie with
    | toEven =>
      simp only [Tie.Prefers] at hprefers ⊢
      omega
    | away =>
      simp only [Tie.Prefers, abs_neg] at hprefers ⊢
      exact hprefers

end IsNearest

/-- An integer at most half a unit away is as near as any. -/
theorem abs_sub_le_of_abs_sub_le_half {x : ℚ} {i : ℤ} (h : |(i : ℚ) - x| ≤ 1 / 2) (j : ℤ) :
    |(i : ℚ) - x| ≤ |(j : ℚ) - x| := by
  by_cases hij : i = j
  · rw [hij]
  · have hone : (1 : ℚ) ≤ |(i : ℚ) - j| := by
      exact_mod_cast Int.one_le_abs (sub_ne_zero.mpr hij)
    have htriangle := abs_sub_le (i : ℚ) x j
    rw [abs_sub_comm x] at htriangle
    linarith

/-! ## Quotients -/

/-- A whole number of steps that is less than a step away from nothing is nothing. -/
theorem eq_zero_of_mul_lt {i step : ℤ} (hlow : -step < i * step) (hhigh : i * step < step) :
    i = 0 := by
  have hpos : 0 < step := by omega
  rcases lt_trichotomy i 0 with h | h | h
  · nlinarith
  · exact h
  · nlinarith

/-- Where a quotient lies in the middle between its rounded value and another integer, the rule has
settled which of the two it is rounded to. -/
theorem prefers_roundDiv {tie : Tie} {num den : ℕ} (hden : 0 < den) {j : ℤ}
    (hne : j ≠ (roundDiv tie num den : ℕ))
    (hmid : ((roundDiv tie num den : ℕ) + j) * den = 2 * num) :
    tie.Prefers (roundDiv tie num den : ℕ) j := by
  have hsplit := Nat.div_add_mod num den
  have hmod := Nat.mod_lt num hden
  unfold roundDiv at hne hmid ⊢
  generalize num / den = quot at hsplit hne hmid ⊢
  generalize num % den = rest at hsplit hmod hne hmid ⊢
  zify at hsplit
  by_cases hlow : 2 * rest < den
  · -- the other integer would be the quotient too
    simp only [hlow, if_true] at hne hmid
    have hrest : (j - quot) * den = 2 * rest := by linarith
    have hzero := eq_zero_of_mul_lt (by rw [hrest]; omega) (by rw [hrest]; omega)
    omega
  by_cases hhigh : den < 2 * rest
  · simp only [hlow, hhigh, if_true, if_false] at hne hmid
    push_cast at hne hmid
    have hrest : (j - (quot + 1)) * den = 2 * rest - 2 * den := by linarith
    have hzero := eq_zero_of_mul_lt (by rw [hrest]; omega) (by rw [hrest]; omega)
    omega
  simp only [hlow, hhigh, if_false] at hmid ⊢
  cases tie with
  | toEven =>
    simp only [Tie.Prefers]
    omega
  | away =>
    simp only [Tie.Prefers]
    push_cast at hmid
    have hrest : (j - quot) * den = 2 * rest - den := by linarith
    have hzero := eq_zero_of_mul_lt (by rw [hrest]; omega) (by rw [hrest]; omega)
    rw [abs_of_nonneg (by omega), abs_of_nonneg (by omega)]
    omega

/-- **A rounded quotient is the nearest integer.** -/
theorem isNearest_roundDiv (tie : Tie) (num : ℕ) {den : ℕ} (hden : 0 < den) :
    IsNearest tie ((num : ℚ) / den) (roundDiv tie num den : ℕ) := by
  have hpos : (0 : ℚ) < den := by exact_mod_cast hden
  have herror : 2 * |(roundDiv tie num den * den : ℚ) - num| ≤ den := by
    exact_mod_cast two_mul_abs_roundDiv_sub_le tie num hden
  have hquot : (num : ℚ) = num / den * den := by field_simp
  refine ⟨abs_sub_le_of_abs_sub_le_half ?_, fun j hne htie => prefers_roundDiv hden hne ?_⟩
  · have hscaled : |((roundDiv tie num den : ℕ) : ℚ) - num / den| * den =
        |(roundDiv tie num den * den : ℚ) - num| := by
      rw [← abs_of_pos hpos, ← abs_mul, abs_of_pos hpos, sub_mul, ← hquot]
    push_cast
    nlinarith
  · -- the two integers lie on opposite sides
    have hsum : ((roundDiv tie num den : ℕ) : ℚ) + j = 2 * (num / den) := by
      rcases abs_eq_abs.mp htie with h | h
      · exact absurd (by exact_mod_cast sub_left_injective h) hne
      · push_cast at h ⊢
        linarith
    have hmid : (((roundDiv tie num den : ℕ) : ℚ) + j) * den = 2 * num := by
      rw [hsum, mul_assoc, ← hquot]
    exact_mod_cast hmid

/-! ## Doubles -/

/-- A size with a sign. -/
def signed (negative : Bool) (n : ℕ) : ℤ := if negative then -n else n

theorem abs_signed (negative : Bool) (n : ℕ) : |signed negative n| = n := by
  cases negative <;> simp [signed]

theorem natAbs_signed (negative : Bool) (n : ℕ) : (signed negative n).natAbs = n := by
  cases negative <;> simp [signed]

/-- Only a size other than zero can be negative. -/
theorem decide_signed_lt_zero (negative : Bool) (n : ℕ) :
    decide (signed negative n < 0) = (negative && decide (n ≠ 0)) := by
  cases negative with
  | false => simp [signed]
  | true => simp [signed, Nat.pos_iff_ne_zero]

theorem signed_not (negative : Bool) (n : ℕ) : signed (!negative) n = -signed negative n := by
  cases negative <;> simp [signed]

theorem signed_mul (negative : Bool) (n m : ℕ) :
    signed negative (n * m) = signed negative n * m := by
  cases negative <;> simp [signed]

/-- Signs only add to a distance. -/
theorem abs_sub_le_abs_signed_sub (s t : Bool) (n m : ℕ) :
    |(n - m : ℤ)| ≤ |signed s n - signed t m| := by
  have h := abs_abs_sub_abs_le (signed s n) (signed t m)
  rwa [abs_signed, abs_signed] at h

theorem abs_signed_sub_signed (negative : Bool) (n m : ℕ) :
    |signed negative n - signed negative m| = |(n - m : ℤ)| := by
  cases negative with
  | false => rfl
  | true =>
    rw [← abs_neg]
    congr 1
    simp only [signed, if_true]
    ring

/-- A rounded quotient with a sign is the nearest integer to the quotient with that sign. -/
theorem isNearest_signed (tie : Tie) (negative : Bool) (num : ℕ) {den : ℕ} (hden : 0 < den) :
    IsNearest tie ((signed negative num : ℚ) / den) (signed negative (roundDiv tie num den)) := by
  have h := isNearest_roundDiv tie num hden
  cases negative with
  | false => simpa [signed] using h
  | true => simpa [signed, neg_div] using h.neg

namespace Double

/-- The exact value of a finite double; zero for the others. -/
def value (x : Double) : ℚ := x.units / unitsPerOne

variable {x y : Double}

theorem exists_finite_of_isFinite (h : x.isFinite = true) :
    ∃ negative size, x = finite negative size := by
  cases x with
  | nan => cases h
  | infinite negative => cases h
  | finite negative size => exact ⟨negative, size, rfl⟩

theorem unitsPerOne_cast_pos : (0 : ℚ) < unitsPerOne := by exact_mod_cast unitsPerOne_pos

theorem units_finite (negative : Bool) (size : Magnitude) :
    (finite negative size).units = signed negative size.units := by
  cases negative <;> rfl

theorem value_finite (negative : Bool) (size : Magnitude) :
    (finite negative size).value = (signed negative size.units : ℚ) / unitsPerOne := by
  rw [value, units_finite]

theorem abs_value_eq (x : Double) : |x.value| = (x.units.natAbs : ℚ) / unitsPerOne := by
  rw [value, abs_div, Nat.abs_cast, Nat.cast_natAbs, Int.cast_abs]

theorem abs_value_finite (negative : Bool) (size : Magnitude) :
    |(finite negative size).value| = (size.units : ℚ) / unitsPerOne := by
  rw [abs_value_eq, units_finite, natAbs_signed]

theorem value_le_value : x.value ≤ y.value ↔ x.units ≤ y.units := by
  rw [value, value, div_le_div_iff_of_pos_right unitsPerOne_cast_pos, Int.cast_le]

theorem value_inj : x.value = y.value ↔ x.units = y.units := by
  rw [le_antisymm_iff, value_le_value, value_le_value, ← le_antisymm_iff]

theorem value_lt_value : x.value < y.value ↔ x.units < y.units := by
  rw [← not_le, value_le_value, not_le]

theorem value_nonneg_iff : 0 ≤ x.value ↔ 0 ≤ x.units := by
  rw [value, le_div_iff₀ unitsPerOne_cast_pos, zero_mul, Int.cast_nonneg_iff]

theorem value_nonpos_iff : x.value ≤ 0 ↔ x.units ≤ 0 := by
  rw [value, div_le_iff₀ unitsPerOne_cast_pos, zero_mul, Int.cast_nonpos]

theorem value_neg_iff : x.value < 0 ↔ x.units < 0 := by
  rw [← not_le, value_nonneg_iff, not_le]

theorem units_neg (x : Double) : (-x).units = -x.units := by
  cases x with
  | nan => rfl
  | infinite negative => rfl
  | finite negative size =>
    change (finite (!negative) size).units = _
    rw [units_finite, units_finite, signed_not]

theorem value_neg (x : Double) : (-x).value = -x.value := by
  rw [value, value, units_neg, Int.cast_neg, neg_div]

/-- The number of steps of `10 ^ -places` nearest to a finite double. -/
def nearestSteps (tie : Tie) (places : ℕ) : Double → ℤ
  | finite negative size => signed negative (roundDiv tie (size.units * 10 ^ places) unitsPerOne)
  | _ => 0

/-- **The number of steps is nearest** to the exact value. -/
theorem isNearest_nearestSteps (tie : Tie) (places : ℕ) (h : x.isFinite = true) :
    IsNearest tie (x.value * 10 ^ places) (x.nearestSteps tie places) := by
  obtain ⟨negative, size, rfl⟩ := exists_finite_of_isFinite h
  have hvalue : (finite negative size).value * 10 ^ places =
      (signed negative (size.units * 10 ^ places) : ℚ) / unitsPerOne := by
    rw [value_finite, signed_mul, div_mul_eq_mul_div]
    push_cast
    rfl
  rw [hvalue]
  exact isNearest_signed tie negative (size.units * 10 ^ places) unitsPerOne_pos

end Double
end Toolpath
