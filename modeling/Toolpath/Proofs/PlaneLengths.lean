import Toolpath.Proofs.Lengths
import Mathlib.Analysis.Real.Sqrt

/-! # Lengths in the plane

The length of two components comes down to one rounded share, one square, one sum, one root and one
product (`Double.rounds_length_pair`).  The larger component is the whole of itself, and a smaller
one of at most `2 ^ -27` of it is lost (`Double.shareRoot_of_le`).  Each step adds an error of at
most `2 ^ -53` of its result, or half a unit where the result has fewer digits than a double can
have.  The square counts that of the share twice and the root halves what comes before it, so all of
them stay within four times `2 ^ -53` of the exact length and half a unit
(`Double.abs_nearestUnits_shareRoot_sub_le`).
-/
namespace Toolpath

/-! ## Errors -/

theorem spacing_mul_le (n : ℕ) : spacing n * 2 ^ 52 ≤ n + 2 ^ 52 := by
  by_cases hsmall : n.log2 ≤ 52
  · have hone : spacing n = 1 := by rw [spacing, Nat.sub_eq_zero_of_le hsmall, Nat.pow_zero]
    omega
  · have hne : n ≠ 0 := by
      rintro rfl
      exact hsmall (by decide)
    have hpow : spacing n * 2 ^ 52 = 2 ^ n.log2 := by
      rw [spacing, ← pow_add, Nat.sub_add_cancel (by omega)]
    have hlog := Nat.log2_self_le hne
    omega

/-- **The error of a rounded quotient.** -/
theorem abs_nearestUnits_sub_le (num : ℕ) {den : ℕ} (hden : 0 < den) :
    |(nearestUnits num den : ℝ) - num / den| ≤ (num : ℝ) / den / 2 ^ 53 + 1 / 2 := by
  have hpos : (0 : ℝ) < den := by exact_mod_cast hden
  have herror := two_mul_abs_nearestUnits_sub_le_spacing num hden
  have hspacing : (den * spacing (num / den) * 2 ^ 52 : ℤ) ≤ num + den * 2 ^ 52 := by
    have hmul := Nat.mul_le_mul_left den (spacing_mul_le (num / den))
    have hdiv := Nat.mul_div_le num den
    rw [Nat.mul_add] at hmul
    have hle : den * spacing (num / den) * 2 ^ 52 ≤ num + den * 2 ^ 52 := by
      rw [Nat.mul_assoc]
      omega
    exact_mod_cast hle
  have hscaled : |(nearestUnits num den : ℝ) - num / den| * den * 2 ^ 53 ≤ num + den * 2 ^ 52 := by
    have hmul : |(nearestUnits num den : ℝ) - num / den| * den =
        |(nearestUnits num den * den : ℝ) - num| := by
      rw [← abs_of_pos hpos, ← abs_mul, abs_of_pos hpos, sub_mul, div_mul_cancel₀ _ hpos.ne']
    have hint : |(nearestUnits num den * den : ℤ) - num| * 2 ^ 53 ≤ num + den * 2 ^ 52 := by omega
    rw [hmul]
    exact_mod_cast hint
  calc |(nearestUnits num den : ℝ) - num / den|
      = |(nearestUnits num den : ℝ) - num / den| * den * 2 ^ 53 / (den * 2 ^ 53) := by
        field_simp
    _ ≤ (num + den * 2 ^ 52) / (den * 2 ^ 53) := by gcongr
    _ = (num : ℝ) / den / 2 ^ 53 + 1 / 2 := by field_simp

/-! ### How errors add up

Each step is off by the share `u` of its result and by `tiny`. -/

section Accumulation
variable {u tiny ρ q t S w r s : ℝ}

/-- The square of a rounded share. -/
theorem abs_square_sub_le (hu : 0 ≤ u) (hu' : u ≤ 1 / 1000) (htiny : 0 ≤ tiny)
    (htiny' : tiny ≤ 1 / 1000) (hρ : 0 ≤ ρ) (hρ' : ρ ≤ 1) (hq : |q - ρ| ≤ u * ρ + tiny)
    (ht : |t - q ^ 2| ≤ u * q ^ 2 + tiny) :
    |t - ρ ^ 2| ≤ 301 / 100 * (u * ρ ^ 2) + 5 * tiny := by
  have hnonneg : 0 ≤ u * ρ ^ 2 := by positivity
  have hsum : |q + ρ| ≤ 2 * ρ + (u * ρ + tiny) := by
    calc |q + ρ| = |(q - ρ) + 2 * ρ| := by congr 1; ring
      _ ≤ |q - ρ| + |2 * ρ| := abs_add_le _ _
      _ ≤ 2 * ρ + (u * ρ + tiny) := by rw [abs_of_nonneg (by linarith : 0 ≤ 2 * ρ)]; linarith
  have hsquare : |q ^ 2 - ρ ^ 2| ≤ 2001 / 1000 * (u * ρ ^ 2) + 3 * tiny := by
    calc |q ^ 2 - ρ ^ 2| = |q - ρ| * |q + ρ| := by rw [← abs_mul]; congr 1; ring
      _ ≤ (u * ρ + tiny) * (2 * ρ + (u * ρ + tiny)) := by gcongr
      _ = (2 + u) * (u * ρ ^ 2) + tiny * (2 * ρ + 2 * (u * ρ) + tiny) := by ring
      _ ≤ (2 + 1 / 1000) * (u * ρ ^ 2) + tiny * (2 * 1 + 2 * (1 / 1000 * 1) + 1 / 1000) := by
        gcongr
      _ ≤ 2001 / 1000 * (u * ρ ^ 2) + 3 * tiny := by linarith
  have hrounded : u * q ^ 2 + tiny ≤ 1003 / 1000 * (u * ρ ^ 2) + 2 * tiny := by
    have hq' : q ^ 2 ≤ ρ ^ 2 + (2001 / 1000 * (u * ρ ^ 2) + 3 * tiny) := by
      linarith [(abs_le.mp hsquare).2]
    calc u * q ^ 2 + tiny ≤ u * (ρ ^ 2 + (2001 / 1000 * (u * ρ ^ 2) + 3 * tiny)) + tiny := by
          gcongr
      _ = (1 + 2001 / 1000 * u) * (u * ρ ^ 2) + (3 * u + 1) * tiny := by ring
      _ ≤ (1 + 2001 / 1000 * (1 / 1000)) * (u * ρ ^ 2) + (3 * (1 / 1000) + 1) * tiny := by gcongr
      _ ≤ 1003 / 1000 * (u * ρ ^ 2) + 2 * tiny := by linarith
  calc |t - ρ ^ 2| ≤ |t - q ^ 2| + |q ^ 2 - ρ ^ 2| := abs_sub_le _ _ _
    _ ≤ 301 / 100 * (u * ρ ^ 2) + 5 * tiny := by linarith

/-- One and the square: the square is at most half of the sum. -/
theorem abs_one_add_sub_le (hu : 0 ≤ u) (hu' : u ≤ 1 / 1000) (htiny' : tiny ≤ u / 1000)
    (hρ : 0 ≤ ρ) (hρ' : ρ ≤ 1) (ht : |t - ρ ^ 2| ≤ 301 / 100 * (u * ρ ^ 2) + 5 * tiny)
    (hS : |S - (1 + t)| ≤ u * (1 + t) + tiny) :
    |S - (1 + ρ ^ 2)| ≤ 253 / 100 * (u * (1 + ρ ^ 2)) := by
  have hone : ρ ^ 2 ≤ 1 := pow_le_one₀ hρ hρ'
  have hpart : u * ρ ^ 2 ≤ u := mul_le_of_le_one_right hu hone
  have hbelow : 1 + t ≤ (1 + ρ ^ 2) + 1 / 100 := by linarith [(abs_le.mp ht).2]
  have hrounded : u * (1 + t) ≤ u * ((1 + ρ ^ 2) + 1 / 100) := by gcongr
  calc |S - (1 + ρ ^ 2)| ≤ |S - (1 + t)| + |(1 + t) - (1 + ρ ^ 2)| := abs_sub_le _ _ _
    _ = |S - (1 + t)| + |t - ρ ^ 2| := by congr 2; ring
    _ ≤ 253 / 100 * (u * (1 + ρ ^ 2)) := by linarith

/-- The root of numbers that are not below one. -/
theorem abs_root_sub_le (hu : 0 ≤ u) (hw : 1 ≤ w) (hr : 1 ≤ r) (hr' : r ≤ 10 / 7)
    (h : |w ^ 2 - r ^ 2| ≤ 253 / 100 * (u * r ^ 2)) : |w - r| ≤ 3 / 2 * (u * r) := by
  have hsum : 17 / 10 * r ≤ w + r := by linarith
  have hproduct : |w - r| * (17 / 10 * r) ≤ 3 / 2 * (u * r) * (17 / 10 * r) := by
    calc |w - r| * (17 / 10 * r) ≤ |w - r| * |w + r| := by
          gcongr
          exact hsum.trans (le_abs_self _)
      _ = |w ^ 2 - r ^ 2| := by rw [← abs_mul]; congr 1; ring
      _ ≤ 253 / 100 * (u * r ^ 2) := h
      _ ≤ 255 / 100 * (u * r ^ 2) := by gcongr; norm_num
      _ = 3 / 2 * (u * r) * (17 / 10 * r) := by ring
  exact le_of_mul_le_mul_right hproduct (by linarith)

/-- The root of what was computed, rounded twice. -/
theorem abs_rounded_root_sub_le (hu : 0 ≤ u) (hu' : u ≤ 1 / 1000) (htiny : 0 ≤ tiny)
    (htiny' : tiny ≤ u / 1000) (hr : 1 ≤ r) {d : ℝ} (hw : |w - r| ≤ 3 / 2 * (u * r))
    (hd : |d - w| ≤ tiny) (hs : |s - d| ≤ u * d + tiny) : |s - r| ≤ 26 / 10 * (u * r) := by
  have hsmall : u ≤ u * r := le_mul_of_one_le_right hu hr
  have hd' : d ≤ r + (3 / 2 * (u * r) + tiny) := by
    linarith [(abs_le.mp hw).2, (abs_le.mp hd).2]
  have hrounded : u * d ≤ u * r + 1 / 100 * (u * r) := by
    calc u * d ≤ u * (r + (3 / 2 * (u * r) + tiny)) := by gcongr
      _ = u * r + (3 / 2 * u * (u * r) + u * tiny) := by ring
      _ ≤ u * r + (3 / 2 * (1 / 1000) * (u * r) + 1 / 1000 * tiny) := by gcongr
      _ ≤ u * r + 1 / 100 * (u * r) := by linarith
  calc |s - r| ≤ |s - d| + |d - r| := abs_sub_le _ _ _
    _ ≤ |s - d| + (|d - w| + |w - r|) := by gcongr; exact abs_sub_le _ _ _
    _ ≤ 26 / 10 * (u * r) := by linarith

end Accumulation

namespace Double

/-! ## The steps -/

section Steps
variable {x y term : Double}

/-- What a double can hold is not rounded. -/
theorem Rounds.exact {num : ℤ} (h : x.Rounds num 1) (hnum : Representable num.natAbs) :
    x.isFinite = true ∧ x.units = num := by
  obtain ⟨hfinite, -, hlow, hhigh⟩ :=
    h.between Nat.one_pos num num hnum hnum (by simp) (by simp)
  exact ⟨hfinite, le_antisymm hhigh hlow⟩

/-- The first term of a sum is taken as it is, and nothing is carried on. -/
theorem RunningSum.add_start {term : Double} (hterm : term.isFinite = true) :
    ∃ total excess : Double, RunningSum.add { total := 0, excess := 0 } term = ⟨total, excess⟩ ∧
      (total.isFinite = true ∧ total.units = term.units) ∧
      (excess.isFinite = true ∧ excess.units = 0) := by
  have hzero : Representable (0 : ℤ).natAbs := by
    rw [← units_zero]
    exact representable_units 0
  obtain ⟨hcorrected, hunits⟩ := (rounds_sub hterm isFinite_zero).exact
    (by rw [units_zero, sub_zero]; exact term.representable_units)
  rw [units_zero, sub_zero] at hunits
  generalize hgiven : term - 0 = corrected at hcorrected hunits
  obtain ⟨htotal, hsum⟩ := (rounds_add isFinite_zero hcorrected).exact
    (by rw [units_zero, zero_add]; exact corrected.representable_units)
  rw [units_zero, zero_add] at hsum
  generalize htaken : 0 + corrected = total at htotal hsum
  obtain ⟨hadded, hdifference⟩ := (rounds_sub htotal isFinite_zero).exact
    (by rw [units_zero, sub_zero]; exact total.representable_units)
  rw [units_zero, sub_zero] at hdifference
  obtain ⟨hexcess, hlost⟩ := (rounds_sub hadded hcorrected).exact
    (by rw [hdifference, hsum, sub_self]; exact hzero)
  rw [hdifference, hsum, sub_self] at hlost
  refine ⟨total, total - 0 - corrected, ?_, ⟨htotal, hsum.trans hunits⟩, hexcess, hlost⟩
  simp only [RunningSum.add, hgiven, htaken]

/-- **A sum of two terms** is rounded once. -/
theorem rounds_compensatedSum_pair {a b : Double} (ha : a.isFinite = true)
    (hb : b.isFinite = true) : (compensatedSum [a, b]).Rounds (a.units + b.units) 1 := by
  obtain ⟨total, excess, hfirst, ⟨htotal, hsum⟩, hexcess, hlost⟩ := RunningSum.add_start ha
  have hresult : compensatedSum [a, b] = total + (b - excess) := by
    simp only [compensatedSum, List.foldl_cons, List.foldl_nil, hfirst]
    rfl
  obtain ⟨hcorrected, hunits⟩ := (rounds_sub hb hexcess).exact
    (by rw [hlost, sub_zero]; exact b.representable_units)
  rw [hlost, sub_zero] at hunits
  rw [hresult, ← hsum, ← hunits]
  exact rounds_add htotal hcorrected

/-- The square of the share of `n` units in `largest` units. -/
def shareSquare (n largest : ℕ) : ℕ :=
  let share := nearestUnits (n * unitsPerOne) largest
  nearestUnits (share * share) unitsPerOne

theorem roundQuotient_natCast (num den : ℕ) : roundQuotient num den = nearestUnits num den := by
  rw [roundQuotient, Int.natAbs_natCast, decide_eq_false (by omega)]
  rfl

theorem units_square {size largest : Double} (hsize : size.isFinite = true)
    (hnonneg : 0 ≤ size.units) (hlargest : largest.isFinite = true) (hpos : 0 < largest.units)
    (hle : size.units ≤ largest.units) :
    (size / largest * (size / largest)).units =
      shareSquare size.units.natAbs largest.units.natAbs := by
  have hshare := isPart_share hsize hnonneg hlargest hpos hle
  have hunits := (rounds_div hsize hlargest hpos).units_eq hshare.isFinite
  have hsquare := (rounds_mul hshare.isFinite hshare.isFinite).units_eq hshare.mul_self.isFinite
  rw [← Int.natAbs_of_nonneg hnonneg, ← Nat.cast_mul, roundQuotient_natCast] at hunits
  rw [hsquare, hunits, ← Nat.cast_mul, roundQuotient_natCast]
  rfl

theorem onGrid_unitsPerOne : OnGrid unitsPerOne := by
  rw [← Nat.one_mul unitsPerOne]
  exact onGrid_mul_unitsPerOne (by decide)

/-- The largest has the whole of itself. -/
theorem shareSquare_self {largest : ℕ} (hpos : 0 < largest) :
    shareSquare largest largest = unitsPerOne := by
  rw [shareSquare, Nat.mul_comm largest, nearestUnits_mul_self hpos onGrid_unitsPerOne]
  exact nearestUnits_mul_self unitsPerOne_pos onGrid_unitsPerOne

/-- The length of two components relative to the larger of them. -/
def shareRoot (n largest : ℕ) : ℕ :=
  nearestUnits (doubledRoot (nearestUnits (unitsPerOne + shareSquare n largest) 1)) 2

theorem units_max_eq {x y : Double} (hx : x.isFinite = true) (hy : y.isFinite = true) :
    (max x y).units = Max.max x.units y.units := by
  rw [max, apply_ite units]
  by_cases hlt : x < y
  · rw [if_pos hlt, max_eq_right (le_of_lt ((lt_iff_units_lt hx hy).mp hlt))]
  · rw [if_neg hlt, max_eq_left]
    exact not_lt.mp fun h => hlt ((lt_iff_units_lt hx hy).mpr h)

theorem length_pair {x y : Double} (hx : x.isFinite = true) (hy : y.isFinite = true) :
    length [x, y] =
      if (max (max 0 x.abs) y.abs).isZero then 0
      else
        sqrt (compensatedSum
          [x.abs / max (max 0 x.abs) y.abs * (x.abs / max (max 0 x.abs) y.abs),
            y.abs / max (max 0 x.abs) y.abs * (y.abs / max (max 0 x.abs) y.abs)]) *
          max (max 0 x.abs) y.abs := by
  obtain ⟨negative, size, rfl⟩ := exists_finite_of_isFinite hx
  obtain ⟨negative', other, rfl⟩ := exists_finite_of_isFinite hy
  rfl

/-- The squares of the two shares: that of the larger component is one. -/
theorem shareSquare_add (m n : ℕ) (hpos : 0 < Max.max m n) :
    shareSquare m (Max.max m n) + shareSquare n (Max.max m n) =
      unitsPerOne + shareSquare (min m n) (Max.max m n) := by
  rcases le_total m n with hle | hle
  · rw [max_eq_right hle] at hpos ⊢
    rw [min_eq_left hle, shareSquare_self hpos, Nat.add_comm]
  · rw [max_eq_left hle] at hpos ⊢
    rw [min_eq_right hle, shareSquare_self hpos]

/-- The larger of two components. -/
theorem units_largest {x y : Double} (hx : x.isFinite = true) (hy : y.isFinite = true) :
    (max (max 0 x.abs) y.abs).isFinite = true ∧
      (max (max 0 x.abs) y.abs).units = (Max.max x.units.natAbs y.units.natAbs : ℕ) := by
  obtain ⟨hxabs, hxunits⟩ := units_abs hx
  obtain ⟨hyabs, hyunits⟩ := units_abs hy
  rw [Int.abs_eq_natAbs] at hxunits hyunits
  have hfirst : (max 0 x.abs).isFinite = true := (units_max isFinite_zero hxabs).1
  refine ⟨(units_max hfirst hyabs).1, ?_⟩
  rw [units_max_eq hfirst hyabs, units_max_eq isFinite_zero hxabs, units_zero, hxunits, hyunits]
  omega

theorem length_pair_of_zero {x y : Double} (hx : x.isFinite = true) (hy : y.isFinite = true)
    (hzero : Max.max x.units.natAbs y.units.natAbs = 0) : length [x, y] = 0 := by
  obtain ⟨hlargest, hunits⟩ := units_largest hx hy
  rw [length_pair hx hy, if_pos]
  by_contra hnonzero
  exact (isZero_eq_false_iff hlargest).mp (Bool.eq_false_iff.mpr hnonzero) (by omega)

/-- **The length of two components** in units. -/
theorem rounds_length_pair {x y : Double} (hx : x.isFinite = true) (hy : y.isFinite = true)
    (hpos : 0 < Max.max x.units.natAbs y.units.natAbs) :
    (length [x, y]).Rounds
      (shareRoot (min x.units.natAbs y.units.natAbs) (Max.max x.units.natAbs y.units.natAbs) *
        Max.max x.units.natAbs y.units.natAbs : ℕ) unitsPerOne := by
  obtain ⟨hxabs, hxunits⟩ := units_abs hx
  obtain ⟨hyabs, hyunits⟩ := units_abs hy
  obtain ⟨hlargest, hunits⟩ := units_largest hx hy
  rw [Int.abs_eq_natAbs] at hxunits hyunits
  generalize x.units.natAbs = m at hxunits hpos hunits ⊢
  generalize y.units.natAbs = n at hyunits hpos hunits ⊢
  rw [length_pair hx hy]
  generalize max (max 0 x.abs) y.abs = largest at hlargest hunits ⊢
  have hpositive : 0 < largest.units := by omega
  rw [if_neg (by rw [(isZero_eq_false_iff hlargest).mpr (by omega)]; decide)]
  -- the sum of the squares
  have hxpart := (isPart_share hxabs (by omega) hlargest hpositive (by omega)).mul_self
  have hypart := (isPart_share hyabs (by omega) hlargest hpositive (by omega)).mul_self
  have hxsquare := units_square hxabs (by omega) hlargest hpositive (by omega)
  have hysquare := units_square hyabs (by omega) hlargest hpositive (by omega)
  rw [hxunits, hunits, Int.natAbs_natCast, Int.natAbs_natCast] at hxsquare
  rw [hyunits, hunits, Int.natAbs_natCast, Int.natAbs_natCast] at hysquare
  have hsum := rounds_compensatedSum_pair hxpart.isFinite hypart.isFinite
  rw [hxsquare, hysquare, ← Nat.cast_add, shareSquare_add m n hpos] at hsum
  have hreach : RunningSum.reach 2 ≤ 2 ^ 52 := by decide
  obtain ⟨hfinite, hnonneg, hle⟩ := isFinite_compensatedSum
    (List.forall_mem_cons.mpr ⟨hxpart, List.forall_mem_singleton.mpr hypart⟩) hreach
  have htotal := hsum.units_eq hfinite
  rw [roundQuotient_natCast] at htotal
  -- its root, and what the root is scaled by
  have hone : unitsPerOne ≤ nearestUnits (unitsPerOne + shareSquare (min m n) (Max.max m n)) 1 :=
    le_nearestUnits Nat.one_pos onGrid_unitsPerOne (by omega)
  have hsumPos := lt_of_lt_of_le unitsPerOne_pos hone
  have hroot := rounds_sqrt hfinite (by omega)
  obtain ⟨hrootFinite, -⟩ := isFinite_sqrt hfinite hnonneg hle hreach
  have hrootUnits := hroot.units_eq hrootFinite
  rw [htotal, Int.natAbs_natCast, roundQuotient_natCast] at hrootUnits
  have hscaled := rounds_mul hrootFinite hlargest
  rw [hrootUnits, hunits, ← Nat.cast_mul] at hscaled
  exact hscaled

/-- What is added to a number on the grid is lost where it is less than half of the spacing. -/
theorem nearestUnits_add {n extra : ℕ} (hn : OnGrid n) (h : 2 * extra < spacing n) :
    nearestUnits (n + extra) 1 = n := by
  have hge : n ≤ nearestUnits (n + extra) 1 := le_nearestUnits Nat.one_pos hn (by omega)
  by_contra hne
  have hgap := hn.add_spacing_le (onGrid_nearestUnits (n + extra) 1) (by omega)
  have hnear := nearestUnits_nearest (n + extra) Nat.one_pos hn
  rw [abs_of_nonneg (by omega), abs_of_nonpos (by omega)] at hnear
  omega

/-- A share of at most `2 ^ -27` is lost: its square is less than half the spacing of one. -/
theorem shareRoot_of_le {n largest : ℕ} (hpos : 0 < largest) (h : n * 2 ^ 27 ≤ largest) :
    shareRoot n largest = unitsPerOne := by
  obtain ⟨k, hk⟩ : ∃ k, unitPlaces = 54 + k := ⟨1020, unitPlaces_eq⟩
  have hunit : unitsPerOne = 2 ^ (54 + k) := by rw [unitsPerOne_eq, hk]
  have hshare : nearestUnits (n * unitsPerOne) largest ≤ 2 ^ (27 + k) := by
    refine nearestUnits_le hpos (onGrid_two_pow _) ?_
    calc n * unitsPerOne = n * 2 ^ 27 * 2 ^ (27 + k) := by rw [hunit]; ring
      _ ≤ largest * 2 ^ (27 + k) := Nat.mul_le_mul_right _ h
      _ = 2 ^ (27 + k) * largest := Nat.mul_comm _ _
  have hsquare : shareSquare n largest ≤ 2 ^ k := by
    refine nearestUnits_le unitsPerOne_pos (onGrid_two_pow k) ?_
    refine (Nat.mul_le_mul hshare hshare).trans (le_of_eq ?_)
    rw [hunit]
    ring
  have hspacing : spacing unitsPerOne = 4 * 2 ^ k := by
    rw [spacing, hunit, Nat.log2_two_pow, show 54 + k - 52 = k + 2 by omega]
    ring
  have hsum : nearestUnits (unitsPerOne + shareSquare n largest) 1 = unitsPerOne := by
    have hpow := Nat.two_pow_pos k
    exact nearestUnits_add onGrid_unitsPerOne (by omega)
  have hroot : doubledRoot unitsPerOne = unitsPerOne * 2 := by
    rw [doubledRoot, Nat.sqrt_eq, if_pos rfl, Nat.mul_comm]
  rw [shareRoot, hsum, hroot, nearestUnits_mul_self (by decide) onGrid_unitsPerOne]

end Steps

/-! ## The distance from the exact length -/

theorem unitsPerOne_real_pos : (0 : ℝ) < unitsPerOne := by exact_mod_cast unitsPerOne_pos

/-- Half a unit is far below what is rounded off one. -/
theorem half_unit_le : 1 / (2 * (unitsPerOne : ℝ)) ≤ 1 / 2 ^ 53 / 1000 := by
  have hlarge : 2 ^ 53 * 1000 ≤ unitsPerOne := by decide +kernel
  have hlarge' : (2 ^ 53 * 1000 : ℝ) ≤ unitsPerOne := by exact_mod_cast hlarge
  rw [div_div]
  apply div_le_div_of_nonneg_left (by norm_num) (by norm_num)
  linarith

/-- The error of a rounded quotient in ones. -/
theorem abs_ones_sub_le (num : ℕ) {den : ℕ} {v : ℝ} (hden : 0 < den)
    (hv : (num : ℝ) / den = v * unitsPerOne) :
    |(nearestUnits num den : ℝ) / unitsPerOne - v| ≤
      1 / 2 ^ 53 * v + 1 / (2 * (unitsPerOne : ℝ)) := by
  have hpos := unitsPerOne_real_pos
  have herror := abs_nearestUnits_sub_le num hden
  rw [hv] at herror
  have hscaled : |(nearestUnits num den : ℝ) / unitsPerOne - v| * unitsPerOne =
      |(nearestUnits num den : ℝ) - v * unitsPerOne| := by
    rw [← abs_of_pos hpos, ← abs_mul, abs_of_pos hpos, sub_mul, div_mul_cancel₀ _ hpos.ne']
  refine le_of_mul_le_mul_right ?_ hpos
  rw [hscaled]
  refine herror.trans (le_of_eq ?_)
  field_simp

/-- Half of the doubled root is within half a unit of the root. -/
theorem abs_doubledRoot_sub_le (n : ℕ) :
    |(doubledRoot n : ℝ) / 2 - √(n * unitsPerOne)| ≤ 1 / 2 := by
  have hlow : ((n * unitsPerOne).sqrt : ℝ) ≤ √(n * unitsPerOne) := by
    refine Real.le_sqrt_of_sq_le ?_
    exact_mod_cast Nat.sqrt_le' (n * unitsPerOne)
  have hhigh : √(n * unitsPerOne) ≤ ((n * unitsPerOne).sqrt : ℝ) + 1 := by
    refine Real.sqrt_le_iff.mpr ⟨by positivity, ?_⟩
    exact_mod_cast (Nat.lt_succ_sqrt' (n * unitsPerOne)).le
  unfold doubledRoot
  dsimp only
  split
  · rename_i hsquare
    have hroot : √(n * unitsPerOne : ℝ) = (n * unitsPerOne).sqrt := by
      rw [Real.sqrt_eq_iff_mul_self_eq (by positivity) (by positivity)]
      exact_mod_cast hsquare.symm
    rw [hroot]
    push_cast
    rw [mul_div_cancel_left₀ _ two_ne_zero, sub_self, abs_zero]
    norm_num
  · push_cast
    rw [abs_le]
    constructor <;> linarith

theorem sqrt_div_unitsPerOne (n : ℕ) :
    √((n : ℝ) / unitsPerOne) = √(n * unitsPerOne) / unitsPerOne := by
  have hpos := unitsPerOne_real_pos
  have hsquare : (n : ℝ) / unitsPerOne = n * unitsPerOne / (unitsPerOne : ℝ) ^ 2 := by field_simp
  rw [hsquare, Real.sqrt_div' _ (by positivity), Real.sqrt_sq hpos.le]

/-- What is rounded off a number of ones is a small part of one. -/
theorem ulp_le : (1 : ℝ) / 2 ^ 53 ≤ 1 / 1000 := by norm_num

/-- One and the square of the share are computed within `253 / 100` times `2 ^ -53` of their sum. -/
theorem abs_one_add_shareSquare_sub_le {n largest : ℕ} (hle : n ≤ largest) (hpos : 0 < largest) :
    |(nearestUnits (unitsPerOne + shareSquare n largest) 1 : ℝ) / unitsPerOne -
        (1 + ((n : ℝ) / largest) ^ 2)| ≤
      253 / 100 * (1 / 2 ^ 53 * (1 + ((n : ℝ) / largest) ^ 2)) := by
  have hunit := unitsPerOne_real_pos
  have hlargest : (0 : ℝ) < largest := by exact_mod_cast hpos
  have hu : (0 : ℝ) ≤ 1 / 2 ^ 53 := by norm_num
  have htiny : 0 ≤ 1 / (2 * (unitsPerOne : ℝ)) := by positivity
  have htiny' : 1 / (2 * (unitsPerOne : ℝ)) ≤ 1 / 1000 :=
    half_unit_le.trans ((div_le_self hu (by norm_num)).trans ulp_le)
  have hρ : (0 : ℝ) ≤ n / largest := by positivity
  have hρ' : (n : ℝ) / largest ≤ 1 := (div_le_one hlargest).mpr (by exact_mod_cast hle)
  rw [shareSquare]
  have hshare := abs_ones_sub_le (n * unitsPerOne) hpos (v := (n : ℝ) / largest)
    (by push_cast; ring)
  generalize nearestUnits (n * unitsPerOne) largest = share at hshare ⊢
  have hsquare := abs_ones_sub_le (share * share) unitsPerOne_pos
    (v := ((share : ℝ) / unitsPerOne) ^ 2) (by push_cast; field_simp)
  generalize nearestUnits (share * share) unitsPerOne = square at hsquare ⊢
  have hsum := abs_ones_sub_le (unitsPerOne + square) Nat.one_pos
    (v := 1 + (square : ℝ) / unitsPerOne) (by push_cast; field_simp)
  exact abs_one_add_sub_le hu ulp_le half_unit_le hρ hρ'
    (abs_square_sub_le hu ulp_le htiny htiny' hρ hρ' hshare hsquare) hsum

/-- **The root of one and the square of the share** is computed within `26 / 10` times `2 ^ -53` of
what it is. -/
theorem abs_shareRoot_sub_le {n largest : ℕ} (hle : n ≤ largest) (hpos : 0 < largest) :
    |(shareRoot n largest : ℝ) / unitsPerOne - √(1 + ((n : ℝ) / largest) ^ 2)| ≤
      26 / 10 * (1 / 2 ^ 53 * √(1 + ((n : ℝ) / largest) ^ 2)) := by
  have hunit := unitsPerOne_real_pos
  have hlargest : (0 : ℝ) < largest := by exact_mod_cast hpos
  have hu : (0 : ℝ) ≤ 1 / 2 ^ 53 := by norm_num
  have hρ' : (n : ℝ) / largest ≤ 1 := (div_le_one hlargest).mpr (by exact_mod_cast hle)
  have hρ2 : ((n : ℝ) / largest) ^ 2 ≤ 1 := pow_le_one₀ (by positivity) hρ'
  have hsum := abs_one_add_shareSquare_sub_le hle hpos
  have hone : unitsPerOne ≤ nearestUnits (unitsPerOne + shareSquare n largest) 1 :=
    le_nearestUnits Nat.one_pos onGrid_unitsPerOne (by omega)
  rw [shareRoot]
  generalize nearestUnits (unitsPerOne + shareSquare n largest) 1 = sum at hsum hone ⊢
  have hroot := abs_ones_sub_le (doubledRoot sum) two_pos
    (v := (doubledRoot sum : ℝ) / 2 / unitsPerOne) (by push_cast; field_simp)
  have hhalf : |(doubledRoot sum : ℝ) / 2 / unitsPerOne - √((sum : ℝ) / unitsPerOne)| ≤
      1 / (2 * (unitsPerOne : ℝ)) := by
    rw [sqrt_div_unitsPerOne, ← sub_div, abs_div, abs_of_pos hunit, ← div_div]
    exact div_le_div_of_nonneg_right (abs_doubledRoot_sub_le sum) hunit.le
  have hw : 1 ≤ √((sum : ℝ) / unitsPerOne) := by
    rw [Real.one_le_sqrt, one_le_div hunit]
    exact_mod_cast hone
  have hr : 1 ≤ √(1 + ((n : ℝ) / largest) ^ 2) := by
    rw [Real.one_le_sqrt]
    linarith [sq_nonneg ((n : ℝ) / largest)]
  have hr' : √(1 + ((n : ℝ) / largest) ^ 2) ≤ 10 / 7 := by
    rw [Real.sqrt_le_left (by norm_num)]
    linarith
  refine abs_rounded_root_sub_le hu ulp_le (by positivity) half_unit_le hr
    (abs_root_sub_le hu hw hr hr' ?_) hhalf hroot
  rwa [Real.sq_sqrt (by positivity), Real.sq_sqrt (by positivity)]

/-- **A computed length** is within four times `2 ^ -53` of the exact one and half a unit. -/
theorem abs_nearestUnits_shareRoot_sub_le {n largest : ℕ} (hle : n ≤ largest)
    (hpos : 0 < largest) :
    |(nearestUnits (shareRoot n largest * largest) unitsPerOne : ℝ) -
        √((largest : ℝ) ^ 2 + (n : ℝ) ^ 2)| ≤
      √((largest : ℝ) ^ 2 + (n : ℝ) ^ 2) / 2 ^ 51 + 1 / 2 := by
  have hunit := unitsPerOne_real_pos
  have hlargest : (0 : ℝ) < largest := by exact_mod_cast hpos
  have hlength : √((largest : ℝ) ^ 2 + (n : ℝ) ^ 2) =
      √(1 + ((n : ℝ) / largest) ^ 2) * largest := by
    have hsquare : (largest : ℝ) ^ 2 + (n : ℝ) ^ 2 =
        (1 + ((n : ℝ) / largest) ^ 2) * (largest : ℝ) ^ 2 := by field_simp
    rw [hsquare, Real.sqrt_mul' _ (by positivity), Real.sqrt_sq hlargest.le]
  have hroot := abs_shareRoot_sub_le hle hpos
  have hround := abs_nearestUnits_sub_le (shareRoot n largest * largest) unitsPerOne_pos
  have hnonneg := Real.sqrt_nonneg (1 + ((n : ℝ) / largest) ^ 2)
  rw [hlength]
  generalize √(1 + ((n : ℝ) / largest) ^ 2) = r at hroot hnonneg ⊢
  generalize shareRoot n largest = root at hroot hround ⊢
  have hproduct : ((root * largest : ℕ) : ℝ) / unitsPerOne = root / unitsPerOne * largest := by
    push_cast
    ring
  rw [hproduct] at hround
  generalize (root : ℝ) / unitsPerOne = s at hroot hround
  have hscaled : |s * largest - r * largest| ≤ 26 / 10 / 2 ^ 53 * (r * largest) := by
    calc |s * largest - r * largest| = |s - r| * largest := by
          rw [← sub_mul, abs_mul, abs_of_pos hlargest]
      _ ≤ 26 / 10 * (1 / 2 ^ 53 * r) * largest := by gcongr
      _ = 26 / 10 / 2 ^ 53 * (r * largest) := by ring
  have habove := (abs_le.mp hscaled).2
  have hproductNonneg : 0 ≤ r * largest := by positivity
  calc |(nearestUnits (root * largest) unitsPerOne : ℝ) - r * largest|
      ≤ |(nearestUnits (root * largest) unitsPerOne : ℝ) - s * largest| +
        |s * largest - r * largest| := abs_sub_le _ _ _
    _ ≤ r * largest / 2 ^ 51 + 1 / 2 := by linarith

/-- **What a computed length is compared as**: a number of units that lies near the exact length. -/
theorem exists_lt_length_pair_iff {x y : Double} (hx : x.isFinite = true) (hy : y.isFinite = true) :
    ∃ computed : ℕ,
      |(computed : ℝ) - √((x.units : ℝ) ^ 2 + (y.units : ℝ) ^ 2)| ≤
        √((x.units : ℝ) ^ 2 + (y.units : ℝ) ^ 2) / 2 ^ 51 + 1 / 2 ∧
      (min x.units.natAbs y.units.natAbs * 2 ^ 27 ≤ Max.max x.units.natAbs y.units.natAbs →
        computed = Max.max x.units.natAbs y.units.natAbs) ∧
      ∀ limit : Double, limit.isFinite = true →
        (limit < length [x, y] ↔ limit.units < computed) := by
  have hsquares : (x.units : ℝ) ^ 2 + (y.units : ℝ) ^ 2 =
      ((Max.max x.units.natAbs y.units.natAbs : ℕ) : ℝ) ^ 2 +
        ((min x.units.natAbs y.units.natAbs : ℕ) : ℝ) ^ 2 := by
    have habs (i : ℤ) : (i : ℝ) ^ 2 = (i.natAbs : ℝ) ^ 2 := by
      rw [Nat.cast_natAbs, Int.cast_abs, sq_abs]
    rw [habs x.units, habs y.units]
    rcases le_total x.units.natAbs y.units.natAbs with hle | hle
    · rw [max_eq_right hle, min_eq_left hle, add_comm]
    · rw [max_eq_left hle, min_eq_right hle]
  rw [hsquares]
  rcases Nat.eq_zero_or_pos (Max.max x.units.natAbs y.units.natAbs) with hzero | hpos
  · have hnone : min x.units.natAbs y.units.natAbs = 0 := by omega
    refine ⟨0, ?_, fun _ => hzero.symm, fun limit hlimit => ?_⟩
    · rw [hzero, hnone]
      norm_num
    · rw [length_pair_of_zero hx hy hzero, lt_iff_units_lt hlimit isFinite_zero, units_zero,
        Nat.cast_zero]
  · refine ⟨_, abs_nearestUnits_shareRoot_sub_le (min_le_max) hpos, fun hsmall => ?_,
      fun limit hlimit => ?_⟩
    · have hgrid : OnGrid (Max.max x.units.natAbs y.units.natAbs) := by
        rcases max_choice x.units.natAbs y.units.natAbs with heq | heq <;> rw [heq]
        · exact x.onGrid_units
        · exact y.onGrid_units
      rw [shareRoot_of_le hpos hsmall, Nat.mul_comm, nearestUnits_mul_self unitsPerOne_pos hgrid]
    · rw [(rounds_length_pair hx hy hpos).lt_iff hlimit, roundQuotient_natCast]

end Double
end Toolpath
