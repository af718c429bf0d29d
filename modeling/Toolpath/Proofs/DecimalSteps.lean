import Toolpath.Decimal.Fixed
import Toolpath.Proofs.Nearest
import Mathlib.Algebra.Order.Ring.Abs

/-! # Doubles and decimal steps

A value rounded to a whole number of steps of `10 ^ -places` and turned into a double again may come
out as another double than it was.  It does not when it already was the double nearest to some
number of steps (`Magnitude.OnSteps`, `OnSteps.nearestUnits_steps`).  Two reasons meet there.  Where
the doubles lie closer than the steps, only one number of steps is nearest to the value, and it is
the one it came from.  Where they lie wider, every number of steps next to the value is turned into
it.

The double of a decimal is a single rounding of its exact value (`Double.ofDecimal_eq_ofRatio`); the
shortcuts for very large and very small exponents change nothing.
-/
namespace Toolpath

theorem unitsPerOne_eq : Double.unitsPerOne = 2 ^ Double.unitPlaces := by
  rw [Double.unitsPerOne]

theorem unitPlaces_eq : Double.unitPlaces = 1074 := by
  rw [Double.unitPlaces]

theorem overflowUnits_eq : overflowUnits = 2 ^ (1024 + Double.unitPlaces) := by decide +kernel

theorem unitsPerOne_pos : 0 < Double.unitsPerOne := by
  rw [unitsPerOne_eq]
  exact Nat.two_pow_pos _

theorem two_pow_lt_overflowUnits {k : Nat} (h : k < 1024) :
    2 ^ k * Double.unitsPerOne < overflowUnits := by
  rw [unitsPerOne_eq, overflowUnits_eq, ← pow_add]
  exact pow_lt_pow_right₀ (by decide) (Nat.add_lt_add_right h Double.unitPlaces)

theorem onGrid_mul_two_pow_mul_unitsPerOne {m : Nat} (k : Nat) (h : m ≤ 2 ^ 53) :
    OnGrid (m * 2 ^ k * Double.unitsPerOne) := by
  rw [unitsPerOne_eq, mul_assoc, ← pow_add]
  exact onGrid_mul_two_pow _ h

theorem onGrid_mul_unitsPerOne {m : Nat} (h : m ≤ 2 ^ 53) : OnGrid (m * Double.unitsPerOne) := by
  rw [unitsPerOne_eq]
  exact onGrid_mul_two_pow _ h

theorem ten_pow_pos (places : Nat) : 0 < 10 ^ places := Nat.pow_pos (by decide)

/-! ## Decimals as quotients -/

/-- A quotient of less than half a unit is rounded to nothing. -/
theorem nearestUnits_eq_zero {num den : Nat} (h : 2 * num < den) : nearestUnits num den = 0 := by
  refine Nat.eq_zero_of_not_pos fun hpos => ?_
  have hnear := nearestUnits_nearest num (by omega : 0 < den) onGrid_zero
  have hden : (den : ℤ) ≤ nearestUnits num den * den := by
    exact_mod_cast Nat.le_mul_of_pos_left den hpos
  rw [abs_of_nonneg (by omega), abs_of_nonpos (by omega)] at hnear
  push_cast at hnear
  omega

/-- A decimal below `10 ^ -400` is less than half a unit. -/
theorem Decimal.two_mul_numerator_lt {d : Decimal}
    (h : d.exponent + digitCount d.coefficient < -400) :
    2 * (d.numerator * Double.unitsPerOne) < d.denominator := by
  have hup : d.exponent.toNat = 0 := by omega
  have hcoefficient : d.coefficient < 10 ^ digitCount d.coefficient :=
    digitCount_le_iff.mp (Nat.le_refl _)
  have hunit : 2 * Double.unitsPerOne ≤ 10 ^ 400 := by decide +kernel
  have hpow : 10 ^ digitCount d.coefficient * 10 ^ 400 ≤ d.denominator := by
    rw [← Nat.pow_add]
    exact Nat.pow_le_pow_right (by decide) (by omega)
  generalize 10 ^ 400 = big at hunit hpow
  have hbig : 0 < big := Nat.lt_of_lt_of_le (Nat.mul_pos (by decide) unitsPerOne_pos) hunit
  rw [numerator, hup, Nat.pow_zero, Nat.mul_one]
  calc 2 * (d.coefficient * Double.unitsPerOne)
    _ = d.coefficient * (2 * Double.unitsPerOne) := by ring
    _ ≤ d.coefficient * big := Nat.mul_le_mul_left _ hunit
    _ < 10 ^ digitCount d.coefficient * big := Nat.mul_lt_mul_of_pos_right hcoefficient hbig
    _ ≤ d.denominator := hpow

/-- A decimal from `10 ^ 401` on is beyond every double. -/
theorem Decimal.overflowUnits_le_numerator {d : Decimal} (hne : d.coefficient ≠ 0)
    (h : 400 < d.exponent) : overflowUnits ≤ d.numerator * Double.unitsPerOne := by
  have hpow : overflowUnits ≤ 10 ^ 401 * Double.unitsPerOne := by decide +kernel
  have hexponent : 401 ≤ d.exponent.toNat := by omega
  refine Nat.le_trans hpow (Nat.mul_le_mul_right _ ?_)
  refine Nat.le_trans (pow_le_pow_right₀ (by decide) hexponent) ?_
  exact Nat.le_mul_of_pos_left _ (Nat.pos_of_ne_zero hne)

namespace Double

theorem ofRatio_zero (negative : Bool) {den : Nat} (hden : 0 < den) :
    ofRatio negative 0 den = zero negative :=
  ofRatio_eq_finite (nearestUnits_zero hden)

/-- A decimal is read by one rounding of its exact value. -/
theorem ofDecimal_eq_ofRatio (negative : Bool) (d : Decimal) :
    ofDecimal negative d = ofRatio negative (d.numerator * unitsPerOne) d.denominator := by
  rw [ofDecimal]
  by_cases hzero : d.coefficient = 0
  · rw [if_pos (.inl hzero), Decimal.numerator, hzero, Nat.zero_mul, Nat.zero_mul,
      ofRatio_zero negative d.denominator_pos]
  split
  · rename_i hsmall
    have hlt := Decimal.two_mul_numerator_lt (hsmall.resolve_left hzero)
    exact (ofRatio_eq_finite (nearestUnits_eq_zero hlt)).symm
  · split
    · rename_i hlarge
      have hden : d.denominator = 1 := by
        rw [Decimal.denominator, show (-d.exponent).toNat = 0 from by omega, Nat.pow_zero]
      have hunits := Decimal.overflowUnits_le_numerator hzero hlarge
      rw [hden]
      refine (ofRatio_of_le negative ?_).symm
      refine le_nearestUnits Nat.one_pos onGrid_overflowUnits ?_
      rwa [Nat.mul_one]
    · rfl

/-- Decimals of the same value are the same double. -/
theorem ofDecimal_congr (negative : Bool) {d e : Decimal}
    (h : d.numerator * e.denominator = e.numerator * d.denominator) :
    ofDecimal negative d = ofDecimal negative e := by
  rw [ofDecimal_eq_ofRatio, ofDecimal_eq_ofRatio]
  refine ofRatio_congr negative d.denominator_pos e.denominator_pos ?_
  rw [Nat.mul_right_comm, h, Nat.mul_right_comm]

/-- A number of steps is read by one rounding. -/
theorem ofDecimal_steps (negative : Bool) (count places : Nat) :
    ofDecimal negative ⟨count, -places⟩ = ofRatio negative (count * unitsPerOne) (10 ^ places) := by
  have hup : (-(places : Int)).toNat = 0 := Int.toNat_neg_natCast places
  have hdown : (- -(places : Int)).toNat = places := by rw [Int.neg_neg, Int.toNat_natCast]
  rw [ofDecimal_eq_ofRatio, Decimal.numerator, Decimal.denominator, hup, hdown, Nat.pow_zero,
    Nat.mul_one]

end Double

/-! ## Steps -/

/-- The only natural within half a unit of a quotient is the rounded one. -/
theorem roundDiv_eq_of_near (tie : Tie) {num den j : Nat} (h : 2 * |(j * den : ℤ) - num| < den) :
    roundDiv tie num den = j := by
  have hden : 0 < den := by have := abs_nonneg ((j * den : ℤ) - num); omega
  have hnear := roundDiv_nearest tie num j hden
  have hdiff : |((roundDiv tie num den : ℤ) - j) * den| < den := by
    have hsplit : ((roundDiv tie num den : ℤ) - j) * den =
        (roundDiv tie num den * den - num) - (j * den - num) := by ring
    have htriangle := abs_sub ((roundDiv tie num den * den : ℤ) - num) (j * den - num)
    rw [hsplit]
    omega
  rw [abs_mul, abs_of_pos (by omega : (0 : ℤ) < den)] at hdiff
  have hlt : |(roundDiv tie num den : ℤ) - j| < 1 := by
    by_contra hge
    have : (den : ℤ) ≤ |(roundDiv tie num den : ℤ) - j| * den :=
      le_mul_of_one_le_left (by omega) (by omega)
    omega
  have hzero := Int.abs_lt_one_iff.mp hlt
  omega

namespace Magnitude

/-- A size that is the double nearest to some number of steps of `10 ^ -places`. -/
def OnSteps (places : Nat) (size : Magnitude) : Prop :=
  ∃ count, nearestUnits (count * Double.unitsPerOne) (10 ^ places) = size.units

/-- The doubles next to a size lie wider apart than the steps. -/
def IsWide (places : Nat) (size : Magnitude) : Prop :=
  Double.unitsPerOne < 10 ^ places * spacing size.units

variable {places : Nat} {size : Magnitude}

/-- A power of ten is no divisor of a power of two. -/
theorem unitsPerOne_ne (hplaces : 0 < places) (n : Nat) :
    Double.unitsPerOne ≠ 10 ^ places * n := by
  intro h
  have hdvd : 5 ∣ Double.unitsPerOne := by
    rw [h]
    exact Nat.dvd_mul_right_of_dvd (dvd_pow (by decide) (by omega)) n
  exact absurd (Nat.mod_eq_zero_of_dvd hdvd) (by decide +kernel)

/-- A size is within half a step of its number of steps. -/
theorem two_mul_abs_steps_sub_le (places : Nat) (size : Magnitude) :
    2 * |(size.steps places * Double.unitsPerOne : ℤ) - (size.units * 10 ^ places : Nat)| ≤
      Double.unitsPerOne :=
  two_mul_abs_roundDiv_sub_le .away _ unitsPerOne_pos

/-- A wide size is a whole number when it is a power of two. -/
theorem IsWide.unitsPerOne_dvd (hwide : size.IsWide places) (hplaces : 10 ^ places ≤ 2 ^ 52)
    (hpow : size.units = 2 ^ size.units.log2) : Double.unitsPerOne ∣ size.units := by
  have hlt : 2 ^ Double.unitPlaces < 2 ^ (52 + (size.units.log2 - 52)) := by
    rw [← unitsPerOne_eq, Nat.pow_add]
    exact Nat.lt_of_lt_of_le hwide (Nat.mul_le_mul_right _ hplaces)
  have hlog := (Nat.pow_lt_pow_iff_right (by decide)).mp hlt
  have hplaces := unitPlaces_eq
  rw [hpow, unitsPerOne_eq]
  exact Nat.pow_dvd_pow 2 (by omega)

/-- A number on the grid less than two half steps away from a wide size is that size. -/
theorem IsWide.eq_of_near {n : Nat} (hwide : size.IsWide places) (hplaces : 10 ^ places ≤ 2 ^ 52)
    (hn : OnGrid n) (hne : ¬Double.unitsPerOne ∣ size.units)
    (hnear : |(n * 10 ^ places : ℤ) - size.units * 10 ^ places| ≤ Double.unitsPerOne) :
    n = size.units := by
  have hpow : size.units ≠ 2 ^ size.units.log2 :=
    fun h => hne (hwide.unitsPerOne_dvd hplaces h)
  have hwide' : (Double.unitsPerOne : ℤ) < 10 ^ places * spacing size.units := by
    exact_mod_cast hwide
  obtain ⟨hlow, hhigh⟩ := abs_le.mp hnear
  have hten : (0 : ℤ) < 10 ^ places := by positivity
  refine hn.eq_of_near size.onGrid hpow ?_ ?_
  · have : (size.units : ℤ) < n + spacing size.units := by nlinarith
    exact_mod_cast this
  · have : (n : ℤ) < size.units + spacing size.units := by nlinarith
    exact_mod_cast this

/-- Where the doubles lie wider than the steps, rounding to steps is undone by reading. -/
theorem IsWide.nearestUnits_steps (hwide : size.IsWide places) (hplaces : 10 ^ places ≤ 2 ^ 52) :
    nearestUnits (size.steps places * Double.unitsPerOne) (10 ^ places) = size.units := by
  by_cases hdvd : Double.unitsPerOne ∣ size.units
  · -- a whole number is a whole number of steps
    obtain ⟨count, hcount⟩ := hdvd
    have hsteps : size.steps places = count * 10 ^ places := by
      rw [steps, hcount, Nat.mul_assoc, Nat.mul_comm, roundDiv_mul_self _ _ unitsPerOne_pos]
    rw [hsteps, show count * 10 ^ places * Double.unitsPerOne = size.units * 10 ^ places from by
      rw [hcount]; ring]
    exact nearestUnits_mul_self (ten_pow_pos places) size.onGrid
  · -- half a step to the steps and at most as much back
    refine hwide.eq_of_near hplaces (onGrid_nearestUnits _ _) hdvd ?_
    have hnear := nearestUnits_nearest (size.steps places * Double.unitsPerOne)
      (ten_pow_pos places) size.onGrid
    have hsteps := two_mul_abs_steps_sub_le places size
    rw [abs_sub_comm] at hsteps
    push_cast at hnear hsteps
    have htriangle := abs_sub_le
      (nearestUnits (size.steps places * Double.unitsPerOne) (10 ^ places) * 10 ^ places : ℤ)
      (size.steps places * Double.unitsPerOne) (size.units * 10 ^ places)
    rw [abs_sub_comm (size.steps places * Double.unitsPerOne : ℤ)] at htriangle
    omega

/-- Where the doubles lie closer than the steps, a size that comes from steps gives them back. -/
theorem steps_of_not_isWide {count : Nat} (hplaces : 0 < places) (hfine : ¬size.IsWide places)
    (hcount : nearestUnits (count * Double.unitsPerOne) (10 ^ places) = size.units) :
    size.steps places = count := by
  -- the size is less than half a step away from that number of steps
  refine roundDiv_eq_of_near .away ?_
  have herror := two_mul_abs_nearestUnits_sub_le (count * Double.unitsPerOne) (ten_pow_pos places)
  rw [hcount] at herror
  have hlt : 10 ^ places * spacing size.units < Double.unitsPerOne :=
    Nat.lt_of_le_of_ne (Nat.le_of_not_lt hfine) (Ne.symm (unitsPerOne_ne hplaces _))
  rw [abs_sub_comm]
  push_cast at herror ⊢
  have hlt' : (10 ^ places * spacing size.units : ℤ) < Double.unitsPerOne := by exact_mod_cast hlt
  omega

/-- **Steps read back.**  A size that comes from steps is the double nearest to its own number of
steps. -/
theorem OnSteps.nearestUnits_steps (h : size.OnSteps places) (hpos : 0 < places)
    (hplaces : 10 ^ places ≤ 2 ^ 52) :
    nearestUnits (size.steps places * Double.unitsPerOne) (10 ^ places) = size.units := by
  by_cases hwide : size.IsWide places
  · exact hwide.nearestUnits_steps hplaces
  · obtain ⟨count, hcount⟩ := h
    rw [steps_of_not_isWide hpos hwide hcount, hcount]

/-- Zero comes from no steps. -/
theorem onSteps_of_zero (places : Nat) (h : size.units = 0) : size.OnSteps places := by
  refine ⟨0, ?_⟩
  rw [Nat.zero_mul, nearestUnits_zero (ten_pow_pos places), h]

/-- What comes from steps comes from finer steps too. -/
theorem OnSteps.mono {more : Nat} (h : size.OnSteps places) (hle : places ≤ more) :
    size.OnSteps more := by
  obtain ⟨count, hcount⟩ := h
  refine ⟨count * 10 ^ (more - places), ?_⟩
  rw [← hcount]
  refine nearestUnits_congr (ten_pow_pos more) (ten_pow_pos places) ?_
  have hsplit : (10 : Nat) ^ more = 10 ^ places * 10 ^ (more - places) := by
    rw [← Nat.pow_add, Nat.add_sub_cancel' hle]
  rw [hsplit]
  ring

/-- Far out every size is wide. -/
theorem isWide_of_isHuge {negative : Bool} (h : (Double.finite negative size).isHuge = true) :
    size.IsWide places := by
  have hunits := Double.isHuge_finite.mp h
  have hpow : 2 ^ (52 + (Double.unitPlaces + 1)) ≤ size.units := by
    rw [show 52 + (Double.unitPlaces + 1) = 53 + Double.unitPlaces by omega, pow_add,
      ← unitsPerOne_eq]
    omega
  have hone : Double.unitsPerOne < spacing size.units := by
    refine Nat.lt_of_lt_of_le ?_ (two_pow_le_spacing (k := Double.unitPlaces + 1) hpow)
    rw [unitsPerOne_eq]
    exact pow_lt_pow_right₀ (by decide) (Nat.lt_succ_self _)
  exact Nat.lt_of_lt_of_le hone (Nat.le_mul_of_pos_left _ (ten_pow_pos places))

end Magnitude
end Toolpath
