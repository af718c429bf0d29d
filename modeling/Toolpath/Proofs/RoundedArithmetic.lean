import Toolpath.Proofs.CoordinateLaws
import Toolpath.Proofs.Surveys

/-! # Rounded arithmetic

The sum, the product and the quotient of two doubles are exact quotients of whole numbers of units
that are rounded once (`Double.Rounds`).  Rounding keeps the order and leaves alone what is on the
grid, so every bound on the grid of the exact result is a bound of the computed one
(`roundQuotient_le`, `le_roundQuotient`).  A result beyond the largest double is an infinity and
compares with every finite double as the number it stands for (`Double.Rounds.lt_iff`).
-/
namespace Toolpath

/-! ## The grid -/

/-- The difference of two numbers on the grid that are within a factor of two is on the grid. -/
theorem OnGrid.sub {m n : ℕ} (hm : OnGrid m) (hn : OnGrid n) (hle : n ≤ m) (htwice : m ≤ 2 * n) :
    OnGrid (m - n) := by
  have hcoarse : spacing n ∣ m := Nat.dvd_trans (spacing_dvd_spacing hle) hm
  have hfine : spacing (m - n) ∣ spacing n := spacing_dvd_spacing (by omega)
  exact Nat.dvd_trans hfine (Nat.dvd_sub hcoarse hn)

theorem OnGrid.two_mul {n : ℕ} (hn : OnGrid n) : OnGrid (2 * n) := by
  by_cases hzero : n = 0
  · rw [hzero]
    exact onGrid_zero
  · have hspacing : spacing (2 * n) ∣ 2 * spacing n := by
      rw [spacing, spacing, Nat.log2_two_mul hzero, ← Nat.pow_succ']
      exact Nat.pow_dvd_pow 2 (by omega)
    exact Nat.dvd_trans hspacing (Nat.mul_dvd_mul_left 2 hn)

/-! ## Rounding with a sign -/

/-- A quotient of units rounded to the grid, on either side of zero. -/
def roundQuotient (num : ℤ) (den : ℕ) : ℤ := signed (num < 0) (nearestUnits num.natAbs den)

section RoundQuotient
variable {i j n : ℤ} {den : ℕ}

theorem signed_natAbs (i : ℤ) : signed (i < 0) i.natAbs = i := by
  unfold signed
  split
  · rename_i h
    have hneg := of_decide_eq_true h
    omega
  · rename_i h
    have hnonneg := of_decide_eq_false (Bool.eq_false_iff.mpr h)
    omega

/-- A size of zero has no sign. -/
theorem signed_zero (negative : Bool) : signed negative 0 = 0 := by
  cases negative <;> rfl

theorem roundQuotient_signed (negative : Bool) (n : ℕ) (hden : 0 < den) :
    roundQuotient (signed negative n) den = signed negative (nearestUnits n den) := by
  rw [roundQuotient, natAbs_signed, decide_signed_lt_zero]
  by_cases hzero : n = 0
  · rw [hzero, nearestUnits_zero hden, signed_zero, signed_zero]
  · rw [decide_eq_true hzero, Bool.and_true]

/-- **Rounding keeps the order.** -/
theorem roundQuotient_mono (hden : 0 < den) (h : i ≤ j) :
    roundQuotient i den ≤ roundQuotient j den := by
  have hzero {k : ℕ} (hk : k = 0) : nearestUnits k den = 0 := by
    rw [hk, nearestUnits_zero hden]
  refine signed_le_signed (nearestUnits_mono hden) (nearestUnits_mono hden) hzero hzero ?_
  rwa [signed_natAbs, signed_natAbs]

/-- What is on the grid is not rounded. -/
theorem roundQuotient_mul_self (hden : 0 < den) (hgrid : OnGrid i.natAbs) :
    roundQuotient (i * den) den = i := by
  have hsigned : i * den = signed (i < 0) (i.natAbs * den) := by
    rw [signed_mul, signed_natAbs]
  rw [hsigned, roundQuotient_signed _ _ hden, nearestUnits_mul_self hden hgrid, signed_natAbs]

theorem roundQuotient_one (hgrid : OnGrid i.natAbs) : roundQuotient i 1 = i := by
  have hself := roundQuotient_mul_self Nat.one_pos hgrid
  rwa [Nat.cast_one, mul_one] at hself

/-- A bound on the grid bounds the rounded quotient too. -/
theorem roundQuotient_le (hden : 0 < den) (hgrid : OnGrid n.natAbs) (h : i ≤ n * den) :
    roundQuotient i den ≤ n := by
  have hmono := roundQuotient_mono hden h
  rwa [roundQuotient_mul_self hden hgrid] at hmono

theorem le_roundQuotient (hden : 0 < den) (hgrid : OnGrid n.natAbs) (h : n * den ≤ i) :
    n ≤ roundQuotient i den := by
  have hmono := roundQuotient_mono hden h
  rwa [roundQuotient_mul_self hden hgrid] at hmono

theorem onGrid_roundQuotient (num : ℤ) (den : ℕ) : OnGrid (roundQuotient num den).natAbs := by
  rw [roundQuotient, natAbs_signed]
  exact onGrid_nearestUnits _ _

theorem roundQuotient_nonneg (hden : 0 < den) (h : 0 ≤ i) : 0 ≤ roundQuotient i den :=
  le_roundQuotient hden onGrid_zero (by rwa [zero_mul])

end RoundQuotient

/-! ## Results -/

namespace Double
variable {x y limit : Double} {num : ℤ} {den : ℕ}

/-- What `num / den` units are rounded to: a double of that many units, or the infinity on its side
where no double is that large. -/
inductive Rounds (num : ℤ) (den : ℕ) : Double → Prop
  | finite {x : Double} (hfinite : x.isFinite = true) (hunits : x.units = roundQuotient num den) :
    Rounds num den x
  | infinite (h : overflowUnits ≤ nearestUnits num.natAbs den) :
    Rounds num den (.infinite (num < 0))

theorem representable_units (x : Double) : Representable x.units.natAbs := by
  cases x with
  | nan => exact ⟨onGrid_zero, overflowUnits_pos⟩
  | infinite negative => exact ⟨onGrid_zero, overflowUnits_pos⟩
  | finite negative size =>
    rw [units_finite, natAbs_signed]
    exact size.representable

/-- A finite double other than zero is the only one of its size and sign. -/
theorem eq_of_units_eq (hx : x.isFinite = true) (hy : y.isFinite = true) (h : x.units = y.units)
    (hne : x.units ≠ 0) : x = y := by
  obtain ⟨negative, size, rfl⟩ := exists_finite_of_isFinite hx
  obtain ⟨negative', other, rfl⟩ := exists_finite_of_isFinite hy
  rw [units_finite, units_finite] at h
  rw [units_finite] at hne
  have hsize : size.units = other.units := by
    rw [← natAbs_signed negative size.units, h, natAbs_signed]
  have hsign : negative = negative' := by
    cases negative <;> cases negative' <;> simp only [signed, Bool.false_eq_true, if_true,
      if_false] at h hne ⊢ <;> omega
  rw [hsign, Magnitude.ext hsize]

theorem onGrid_units (x : Double) : OnGrid x.units.natAbs := x.representable_units.1

/-- A whole number of ones, on either side of zero. -/
theorem representable_ones {ones : ℤ} (h : ones.natAbs ≤ 2 ^ 53) :
    Representable (ones * unitsPerOne).natAbs := by
  rw [Int.natAbs_mul, Int.natAbs_natCast]
  refine ⟨onGrid_mul_unitsPerOne h, ?_⟩
  exact lt_of_le_of_lt (Nat.mul_le_mul_right _ h) (two_pow_lt_overflowUnits (by decide))

theorem value_eq_natCast {n : ℕ} (h : x.units = n * unitsPerOne) : x.value = n := by
  rw [value, h, div_eq_iff (ne_of_gt unitsPerOne_cast_pos)]
  push_cast
  rfl

theorem rounds_ofRatio (negative : Bool) (n : ℕ) (hden : 0 < den) :
    (ofRatio negative n den).Rounds (signed negative n) den := by
  rcases Nat.lt_or_ge (nearestUnits n den) overflowUnits with h | h
  · rw [ofRatio_of_lt negative h]
    refine .finite rfl ?_
    rw [units_finite, roundQuotient_signed negative n hden]
  · have hne : n ≠ 0 := fun hzero => by
      rw [hzero, nearestUnits_zero hden] at h
      exact absurd h (Nat.not_le.mpr overflowUnits_pos)
    have hsign : negative = decide (signed negative n < 0) := by
      rw [decide_signed_lt_zero, decide_eq_true hne, Bool.and_true]
    rw [ofRatio_of_le negative h]
    conv => rhs; rw [hsign]
    exact .infinite (by rwa [natAbs_signed])

theorem rounds_add (hx : x.isFinite = true) (hy : y.isFinite = true) :
    (x + y).Rounds (x.units + y.units) 1 := by
  obtain ⟨negative, size, rfl⟩ := exists_finite_of_isFinite hx
  obtain ⟨negative', other, rfl⟩ := exists_finite_of_isFinite hy
  generalize hsum : (finite negative size).units + (finite negative' other).units = sum
  have hresult : finite negative size + finite negative' other =
      ofRatio (if sum = 0 then negative && negative' else sum < 0) sum.natAbs 1 := by
    rw [← hsum]
    rfl
  rw [hresult]
  by_cases hzero : sum = 0
  · rw [if_pos hzero]
    have hrounds := rounds_ofRatio (negative && negative') sum.natAbs Nat.one_pos
    rw [hzero, Int.natAbs_zero, signed_zero] at hrounds
    rwa [hzero, Int.natAbs_zero]
  · rw [if_neg hzero]
    have hrounds := rounds_ofRatio (sum < 0) sum.natAbs Nat.one_pos
    rwa [signed_natAbs] at hrounds

theorem isFinite_neg (x : Double) : (-x).isFinite = x.isFinite := by
  cases x <;> rfl

theorem rounds_sub (hx : x.isFinite = true) (hy : y.isFinite = true) :
    (x - y).Rounds (x.units - y.units) 1 := by
  have hadd := rounds_add hx ((isFinite_neg y).trans hy)
  rwa [units_neg, ← sub_eq_add_neg] at hadd

theorem signed_mul_signed (s t : Bool) (m n : ℕ) :
    signed s m * signed t n = signed (s ^^ t) (m * n) := by
  cases s <;> cases t <;> simp [signed]

theorem rounds_mul (hx : x.isFinite = true) (hy : y.isFinite = true) :
    (x * y).Rounds (x.units * y.units) unitsPerOne := by
  obtain ⟨negative, size, rfl⟩ := exists_finite_of_isFinite hx
  obtain ⟨negative', other, rfl⟩ := exists_finite_of_isFinite hy
  rw [units_finite, units_finite, signed_mul_signed]
  exact rounds_ofRatio _ _ unitsPerOne_pos

theorem rounds_div (hx : x.isFinite = true) (hy : y.isFinite = true) (hpos : 0 < y.units) :
    (x / y).Rounds (x.units * unitsPerOne) y.units.natAbs := by
  obtain ⟨negative, size, rfl⟩ := exists_finite_of_isFinite hx
  obtain ⟨negative', other, rfl⟩ := exists_finite_of_isFinite hy
  rw [units_finite] at hpos
  cases negative' with
  | true =>
    simp only [signed, if_true] at hpos
    omega
  | false =>
    simp only [signed, Bool.false_eq_true, if_false] at hpos
    have hresult : finite negative size / finite false other =
        ofRatio (negative ^^ false) (size.units * unitsPerOne) other.units :=
      if_neg (by omega)
    rw [hresult, Bool.xor_false, units_finite, units_finite, natAbs_signed, ← signed_mul]
    exact rounds_ofRatio negative _ (by omega)

namespace Rounds

theorem units_eq (h : x.Rounds num den) (hfinite : x.isFinite = true) :
    x.units = roundQuotient num den := by
  cases h with
  | finite _ hunits => exact hunits
  | infinite _ => cases hfinite

/-- **Between two doubles** a quotient is rounded to a double that lies between them. -/
theorem between (h : x.Rounds num den) (hden : 0 < den) (low high : ℤ)
    (hlow : Representable low.natAbs) (hhigh : Representable high.natAbs)
    (hge : low * den ≤ num) (hle : num ≤ high * den) :
    x.isFinite = true ∧ x.units = roundQuotient num den ∧ low ≤ x.units ∧ x.units ≤ high := by
  have habove := le_roundQuotient hden hlow.1 hge
  have hbelow := roundQuotient_le hden hhigh.1 hle
  cases h with
  | finite hfinite hunits =>
    rw [← hunits] at habove hbelow
    exact ⟨hfinite, hunits, habove, hbelow⟩
  | infinite hover =>
    have hsize : (roundQuotient num den).natAbs = nearestUnits num.natAbs den := natAbs_signed _ _
    have hfits := hlow.2
    have hfits' := hhigh.2
    omega

theorem ne_nan (h : x.Rounds num den) : x ≠ nan := by
  cases h with
  | finite hfinite _ =>
    rintro rfl
    cases hfinite
  | infinite _ => exact Double.noConfusion

/-- **A computed number compares as the exact one does**, rounded: an infinity lies beyond all
doubles, as does the number it stands for. -/
theorem lt_iff (h : x.Rounds num den) (hlimit : limit.isFinite = true) :
    limit < x ↔ limit.units < roundQuotient num den := by
  cases h with
  | finite hfinite hunits => rw [lt_iff_units_lt hlimit hfinite, hunits]
  | infinite hover =>
    obtain ⟨negative, size, rfl⟩ := exists_finite_of_isFinite hlimit
    have hlt := (Double.finite negative size).representable_units.2
    generalize hunits : (Double.finite negative size).units = units at hlt ⊢
    have hdef : (Double.finite negative size < Double.infinite (num < 0)) ↔
        (!decide (num < 0)) = true := Iff.rfl
    rw [hdef, roundQuotient]
    by_cases hnum : num < 0 <;> simp [hnum, signed] <;> omega

theorem gt_iff (h : x.Rounds num den) (hlimit : limit.isFinite = true) :
    x < limit ↔ roundQuotient num den < limit.units := by
  cases h with
  | finite hfinite hunits => rw [lt_iff_units_lt hfinite hlimit, hunits]
  | infinite hover =>
    obtain ⟨negative, size, rfl⟩ := exists_finite_of_isFinite hlimit
    have hlt := (Double.finite negative size).representable_units.2
    generalize hunits : (Double.finite negative size).units = units at hlt ⊢
    have hdef : (Double.infinite (num < 0) < Double.finite negative size) ↔
        decide (num < 0) = true := Iff.rfl
    rw [hdef, roundQuotient]
    by_cases hnum : num < 0 <;> simp [hnum, signed] <;> omega

end Rounds
end Double
end Toolpath
