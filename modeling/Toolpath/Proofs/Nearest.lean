import Toolpath.Double.Basic
import Mathlib.Algebra.Order.Group.Abs
import Mathlib.Tactic.Linarith
import Mathlib.Tactic.Ring

/-! # The nearest double

`Double.ofRatio` divides, looks at the spacing of the quotient and rounds to a multiple of it.  Here
its result is placed among all doubles: no number of units on their grid lies nearer to the exact
quotient (`nearestUnits_nearest`).  Everything else that is used of a rounding follows from that and
from how far apart two numbers on the grid are (`OnGrid.add_spacing_le`, `OnGrid.eq_of_near`).
Distances are multiplied by the denominator, so that nothing but integers occurs.
-/
namespace Toolpath

/-! ## The grid -/

/-- A number of units that is a multiple of its spacing: a double, overflow aside. -/
def OnGrid (n : Nat) : Prop := spacing n ∣ n

theorem log2_mono {m n : Nat} (h : m ≤ n) : m.log2 ≤ n.log2 := by
  by_cases hm : m = 0
  · rw [hm, Nat.log2_zero]
    exact Nat.zero_le _
  · exact (Nat.le_log2 (by omega)).mpr (Nat.le_trans (Nat.log2_self_le hm) h)

theorem spacing_dvd_spacing {m n : Nat} (h : m ≤ n) : spacing m ∣ spacing n :=
  Nat.pow_dvd_pow 2 (Nat.sub_le_sub_right (log2_mono h) 52)

theorem two_pow_le_spacing {k n : Nat} (h : 2 ^ (52 + k) ≤ n) : 2 ^ k ≤ spacing n := by
  have hlog := log2_mono h
  rw [Nat.log2_two_pow] at hlog
  exact Nat.pow_le_pow_right (by decide) (by omega)

theorem onGrid_two_pow (k : Nat) : OnGrid (2 ^ k) := by
  rw [OnGrid, spacing, Nat.log2_two_pow]
  exact Nat.pow_dvd_pow 2 (Nat.sub_le k 52)

theorem onGrid_mul_two_pow {m : Nat} (k : Nat) (h : m ≤ 2 ^ 53) : OnGrid (m * 2 ^ k) :=
  spacing_dvd_mul_two_pow k h

/-- Naturals of 53 digits are on the grid. -/
theorem onGrid_of_le {m : Nat} (h : m ≤ 2 ^ 53) : OnGrid m := by
  have hgrid := onGrid_mul_two_pow 0 h
  rwa [Nat.pow_zero, Nat.mul_one] at hgrid

theorem onGrid_zero : OnGrid 0 := Nat.dvd_zero _

theorem onGrid_overflowUnits : OnGrid overflowUnits := by
  unfold OnGrid
  decide +kernel

theorem Magnitude.onGrid (size : Magnitude) : OnGrid size.units := size.representable.1

/-- The next number on the grid is a spacing away. -/
theorem OnGrid.add_spacing_le {m n : Nat} (hm : OnGrid m) (hn : OnGrid n) (h : m < n) :
    m + spacing m ≤ n := by
  have hdvd : spacing m ∣ n := Nat.dvd_trans (spacing_dvd_spacing (Nat.le_of_lt h)) hn
  have hle : spacing m ≤ n - m := Nat.le_of_dvd (by omega) (Nat.dvd_sub hdvd hm)
  omega

/-- Below a number that is no power of two the grid is as wide as above it. -/
theorem OnGrid.add_spacing_le_of_ne {m n : Nat} (hm : OnGrid m) (hn : OnGrid n) (h : m < n)
    (hne : n ≠ 2 ^ n.log2) : m + spacing n ≤ n := by
  have hpow : 2 ^ n.log2 < n :=
    Nat.lt_of_le_of_ne (Nat.log2_self_le (by omega)) (Ne.symm hne)
  have hspacing : spacing (2 ^ n.log2) = spacing n := by
    rw [spacing, spacing, Nat.log2_two_pow]
  -- either the power of two under `n` lies between the two, or both have the same spacing
  rcases Nat.lt_or_ge m (2 ^ n.log2) with hlow | hhigh
  · have hgap := (onGrid_two_pow n.log2).add_spacing_le hn hpow
    rw [hspacing] at hgap
    omega
  · have hlog : m.log2 = n.log2 :=
      Nat.le_antisymm (log2_mono (Nat.le_of_lt h))
        ((Nat.le_log2 (by have := Nat.two_pow_pos n.log2; omega)).mpr hhigh)
    have hgap := hm.add_spacing_le hn h
    rwa [spacing, hlog] at hgap

/-- A number on the grid that is less than a spacing away from another is that number. -/
theorem OnGrid.eq_of_near {m n : Nat} (hm : OnGrid m) (hn : OnGrid n) (hne : n ≠ 2 ^ n.log2)
    (hlow : n < m + spacing n) (hhigh : m < n + spacing n) : m = n := by
  rcases Nat.lt_trichotomy m n with h | h | h
  · have := hm.add_spacing_le_of_ne hn h hne
    omega
  · exact h
  · have := hn.add_spacing_le hm h
    omega

/-! ## Rounding to the grid -/

/-- The number of units on the grid to which `num / den` units are rounded. -/
def nearestUnits (num den : Nat) : Nat :=
  roundDiv .toEven num (den * spacing (num / den)) * spacing (num / den)

theorem onGrid_nearestUnits (num den : Nat) : OnGrid (nearestUnits num den) :=
  spacing_dvd_mul_two_pow _ (Double.roundDiv_spacing_le .toEven num den)

theorem Double.ofRatio_of_lt (negative : Bool) {num den : Nat}
    (h : nearestUnits num den < overflowUnits) :
    ofRatio negative num den =
      finite negative ⟨nearestUnits num den, onGrid_nearestUnits num den, h⟩ := by
  unfold ofRatio
  exact dif_pos h

theorem Double.ofRatio_of_le (negative : Bool) {num den : Nat}
    (h : overflowUnits ≤ nearestUnits num den) : ofRatio negative num den = infinite negative := by
  unfold ofRatio
  exact dif_neg (Nat.not_lt.mpr h)

theorem Double.ofRatio_eq_finite {negative : Bool} {num den : Nat} {size : Magnitude}
    (h : nearestUnits num den = size.units) : ofRatio negative num den = finite negative size := by
  rw [ofRatio_of_lt negative (by rw [h]; exact size.representable.2)]
  exact congrArg (finite negative) (Magnitude.ext h)

/-- A rounded quotient is finite with the sign it was given, or infinite with that sign. -/
theorem Double.ofRatio_cases (negative : Bool) (num den : Nat) :
    (∃ size : Magnitude, size.units = nearestUnits num den ∧
        ofRatio negative num den = finite negative size) ∨
      ofRatio negative num den = infinite negative := by
  rcases Nat.lt_or_ge (nearestUnits num den) overflowUnits with h | h
  · exact .inl ⟨_, rfl, ofRatio_of_lt negative h⟩
  · exact .inr (ofRatio_of_le negative h)

/-- The multiples of two naturals in a row are a step apart. -/
theorem mul_add_self_le {i j : Nat} (step : Nat) (h : i < j) :
    (i * step : ℤ) + step ≤ j * step := by
  have hmul : (i + 1) * step ≤ j * step := Nat.mul_le_mul_right step h
  rw [Nat.add_mul, Nat.one_mul] at hmul
  exact_mod_cast hmul

/-- A rounded quotient is at most half a unit off. -/
theorem two_mul_abs_roundDiv_sub_le (tie : Tie) (num : Nat) {den : Nat} (hden : 0 < den) :
    2 * |(roundDiv tie num den * den : ℤ) - num| ≤ den := by
  have hlow := two_mul_roundDiv_le tie num den
  have hhigh := le_two_mul_roundDiv tie num hden
  zify at hlow hhigh
  rcases abs_cases ((roundDiv tie num den * den : ℤ) - num) with ⟨he, _⟩ | ⟨he, _⟩ <;> omega

/-- A quotient rounded to the nearest natural is as near as any natural. -/
theorem roundDiv_nearest (tie : Tie) (num j : Nat) {den : Nat} (hden : 0 < den) :
    |(roundDiv tie num den * den : ℤ) - num| ≤ |(j * den : ℤ) - num| := by
  have hlow : (2 * (roundDiv tie num den * den) : ℤ) ≤ 2 * num + den := by
    exact_mod_cast two_mul_roundDiv_le tie num den
  have hhigh : (2 * num : ℤ) ≤ 2 * (roundDiv tie num den * den) + den := by
    exact_mod_cast le_two_mul_roundDiv tie num hden
  generalize roundDiv tie num den = r at hlow hhigh ⊢
  -- any other natural is a whole step away from the rounded one, which is half a step off at most
  rcases Nat.lt_trichotomy r j with h | rfl | h
  · have hstep := mul_add_self_le den h
    rw [abs_le]
    constructor <;> rcases abs_cases ((j * den : ℤ) - num) with ⟨he, _⟩ | ⟨he, _⟩ <;> omega
  · exact le_refl _
  · have hstep := mul_add_self_le den h
    rw [abs_le]
    constructor <;> rcases abs_cases ((j * den : ℤ) - num) with ⟨he, _⟩ | ⟨he, _⟩ <;> omega

/-- Among the multiples of the spacing of the quotient, none is nearer than the rounded one. -/
theorem nearestUnits_nearest_of_dvd (num : Nat) {den n : Nat} (hden : 0 < den)
    (hn : spacing (num / den) ∣ n) :
    |(nearestUnits num den * den : ℤ) - num| ≤ |(n * den : ℤ) - num| := by
  obtain ⟨j, rfl⟩ := hn
  have hnear := roundDiv_nearest .toEven num j (Nat.mul_pos hden (spacing_pos (num / den)))
  have hr : (nearestUnits num den * den : ℤ) =
      roundDiv .toEven num (den * spacing (num / den)) * (den * spacing (num / den) : Nat) := by
    rw [nearestUnits]; push_cast; ring
  have hj : ((spacing (num / den) * j : Nat) * den : ℤ) =
      j * (den * spacing (num / den) : Nat) := by
    push_cast; ring
  rw [hr, hj]
  exact hnear

/-- **A rounded quotient is nearest.**  No number on the grid lies nearer to `num / den`. -/
theorem nearestUnits_nearest (num : Nat) {den n : Nat} (hden : 0 < den) (hn : OnGrid n) :
    |(nearestUnits num den * den : ℤ) - num| ≤ |(n * den : ℤ) - num| := by
  by_cases hdvd : spacing (num / den) ∣ n
  · exact nearestUnits_nearest_of_dvd num hden hdvd
  · -- `n` has a finer spacing, so a power of two lies between it and the quotient
    have hlog : n.log2 < (num / den).log2 := by
      refine Nat.lt_of_not_le fun h => hdvd (Nat.dvd_trans ?_ hn)
      exact Nat.pow_dvd_pow 2 (Nat.sub_le_sub_right h 52)
    have hne : num / den ≠ 0 := fun h => by
      rw [h, Nat.log2_zero] at hlog
      exact Nat.not_lt_zero _ hlog
    have hbelow : n < 2 ^ (num / den).log2 :=
      Nat.lt_of_lt_of_le Nat.lt_log2_self (Nat.pow_le_pow_right (by decide) hlog)
    have habove : 2 ^ (num / den).log2 * den ≤ num :=
      Nat.le_trans (Nat.mul_le_mul_right den (Nat.log2_self_le hne)) (Nat.div_mul_le_self num den)
    have hpow : spacing (num / den) ∣ 2 ^ (num / den).log2 :=
      Nat.pow_dvd_pow 2 (Nat.sub_le _ 52)
    have hnear := nearestUnits_nearest_of_dvd num hden hpow
    have hmul : n * den ≤ 2 ^ (num / den).log2 * den :=
      Nat.mul_le_mul_right den (Nat.le_of_lt hbelow)
    generalize 2 ^ (num / den).log2 = power at hnear habove hmul
    zify at habove hmul
    rw [abs_of_nonpos (by omega : (power * den : ℤ) - num ≤ 0)] at hnear
    rw [abs_of_nonpos (by omega : (n * den : ℤ) - num ≤ 0)]
    omega

/-- A quotient up to a number on the grid is rounded to at most that number. -/
theorem nearestUnits_le {num den n : Nat} (hden : 0 < den) (hn : OnGrid n) (h : num ≤ n * den) :
    nearestUnits num den ≤ n := by
  refine Nat.le_of_not_lt fun hlt => ?_
  have hnear := nearestUnits_nearest num hden hn
  have hstep : (n * den : ℤ) < nearestUnits num den * den := by
    exact_mod_cast Nat.mul_lt_mul_of_pos_right hlt hden
  have h' : (num : ℤ) ≤ n * den := by exact_mod_cast h
  rw [abs_of_nonneg (by omega), abs_of_nonneg (by omega)] at hnear
  omega

/-- A quotient from a number on the grid on is rounded to at least that number. -/
theorem le_nearestUnits {num den n : Nat} (hden : 0 < den) (hn : OnGrid n) (h : n * den ≤ num) :
    n ≤ nearestUnits num den := by
  refine Nat.le_of_not_lt fun hlt => ?_
  have hnear := nearestUnits_nearest num hden hn
  have hstep : (nearestUnits num den * den : ℤ) < n * den := by
    exact_mod_cast Nat.mul_lt_mul_of_pos_right hlt hden
  have h' : (n * den : ℤ) ≤ num := by exact_mod_cast h
  rw [abs_of_nonpos (by omega), abs_of_nonpos (by omega)] at hnear
  omega

/-- What is on the grid is not rounded. -/
theorem nearestUnits_mul_self {n den : Nat} (hden : 0 < den) (hn : OnGrid n) :
    nearestUnits (n * den) den = n :=
  Nat.le_antisymm (nearestUnits_le hden hn (Nat.le_refl _))
    (le_nearestUnits hden hn (Nat.le_refl _))

theorem OnGrid.nearestUnits_one {n : Nat} (hn : OnGrid n) : nearestUnits n 1 = n := by
  have hself := nearestUnits_mul_self Nat.one_pos hn
  rwa [Nat.mul_one] at hself

theorem nearestUnits_zero {den : Nat} (hden : 0 < den) : nearestUnits 0 den = 0 := by
  have hself := nearestUnits_mul_self hden onGrid_zero
  rwa [Nat.zero_mul] at hself

/-- The rounding error is at most half the spacing of the quotient. -/
theorem two_mul_abs_nearestUnits_sub_le_spacing (num : Nat) {den : Nat} (hden : 0 < den) :
    2 * |(nearestUnits num den * den : ℤ) - num| ≤ den * spacing (num / den) := by
  have herror := two_mul_abs_roundDiv_sub_le .toEven num
    (Nat.mul_pos hden (spacing_pos (num / den)))
  have hr : (roundDiv .toEven num (den * spacing (num / den)) *
      (den * spacing (num / den) : ℕ) : ℤ) = nearestUnits num den * den := by
    rw [nearestUnits]
    push_cast
    ring
  rw [hr] at herror
  exact_mod_cast herror

/-- The rounding error is at most half the spacing of the result. -/
theorem two_mul_abs_nearestUnits_sub_le (num : Nat) {den : Nat} (hden : 0 < den) :
    2 * |(nearestUnits num den * den : ℤ) - num| ≤ den * spacing (nearestUnits num den) := by
  -- the power of two under the quotient is on the grid, so rounding does not fall below it
  have hspacing : spacing (num / den) ≤ spacing (nearestUnits num den) := by
    by_cases hzero : num / den = 0
    · rw [hzero]
      exact spacing_pos _
    · have hpow : 2 ^ (num / den).log2 ≤ nearestUnits num den := by
        refine le_nearestUnits hden (onGrid_two_pow _) ?_
        exact Nat.le_trans (Nat.mul_le_mul_right den (Nat.log2_self_le hzero))
          (Nat.div_mul_le_self num den)
      have hlog := log2_mono hpow
      rw [Nat.log2_two_pow] at hlog
      exact Nat.pow_le_pow_right (by decide) (Nat.sub_le_sub_right hlog 52)
  refine le_trans (two_mul_abs_nearestUnits_sub_le_spacing num hden) ?_
  exact_mod_cast Nat.mul_le_mul_left den hspacing

/-! ## Equal quotients -/

theorem roundDiv_mul_mul (tie : Tie) (num den : Nat) {k : Nat} (hk : 0 < k) :
    roundDiv tie (num * k) (den * k) = roundDiv tie num den := by
  have hmod : num * k % (den * k) = num % den * k := Nat.mul_mod_mul_right k num den
  have hdiv : num * k / (den * k) = num / den := Nat.mul_div_mul_right num den hk
  have hlt : 2 * (num % den * k) < den * k ↔ 2 * (num % den) < den := by
    rw [← Nat.mul_assoc, Nat.mul_lt_mul_right hk]
  have hgt : den * k < 2 * (num % den * k) ↔ den < 2 * (num % den) := by
    rw [← Nat.mul_assoc, Nat.mul_lt_mul_right hk]
  unfold roundDiv
  simp only [hmod, hdiv, hlt, hgt]

theorem nearestUnits_mul_mul (num den : Nat) {k : Nat} (hk : 0 < k) :
    nearestUnits (num * k) (den * k) = nearestUnits num den := by
  rw [nearestUnits, nearestUnits, Nat.mul_div_mul_right num den hk, Nat.mul_right_comm,
    roundDiv_mul_mul _ _ _ hk]

/-- Rounding looks at the quotient alone. -/
theorem nearestUnits_congr {num den num' den' : Nat} (hden : 0 < den) (hden' : 0 < den')
    (h : num * den' = num' * den) : nearestUnits num den = nearestUnits num' den' := by
  rw [← nearestUnits_mul_mul num den hden', h, Nat.mul_comm den den',
    nearestUnits_mul_mul num' den' hden]

theorem Double.ofRatio_congr (negative : Bool) {num den num' den' : Nat} (hden : 0 < den)
    (hden' : 0 < den') (h : num * den' = num' * den) :
    ofRatio negative num den = ofRatio negative num' den' := by
  have hunits := nearestUnits_congr hden hden' h
  rcases ofRatio_cases negative num' den' with ⟨size, hsize, heq⟩ | heq
  · rw [heq, ofRatio_eq_finite (hunits.trans hsize.symm)]
  · rcases Nat.lt_or_ge (nearestUnits num' den') overflowUnits with hlt | hge
    · rw [ofRatio_of_lt negative hlt] at heq
      cases heq
    · rw [heq, ofRatio_of_le negative (by rw [hunits]; exact hge)]

end Toolpath
