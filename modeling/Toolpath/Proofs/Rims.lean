import Toolpath.Proofs.PlaneLengths

/-! # The rim of a cylindrical bed

A cylindrical bed looks at the computed length of a point's `x` and `y`.  Where the radius is
further from the exact distance than that length can be, the bed decides as the exact distance does,
and so it does where one of the two coordinates is zero (`Bed.mem_violations_cylindrical`).  On the
rim it may not (`Bed.not_forall_mem_violations_cylindrical`), nor right behind it next to an axis
(`Bed.beyondRadius_notMem_of_share`).
-/
namespace Toolpath

/-- The exact distance of a point from the axis of a cylinder. -/
noncomputable def Point.fromAxis (point : Point) : ℝ :=
  √((point.x.value : ℝ) ^ 2 + (point.y.value : ℝ) ^ 2)

/-- How far a computed distance may be from an exact one. -/
noncomputable def lengthError (distance : ℝ) : ℝ := distance / 2 ^ 51 + 1 / 2 ^ 1075

/-! ## Values -/

namespace Double

theorem value_real (x : Double) : (x.value : ℝ) = x.units / unitsPerOne := by
  rw [value]
  push_cast
  rfl

/-- Half a unit as a number. -/
theorem half_unit_eq : 1 / 2 / (unitsPerOne : ℝ) = 1 / 2 ^ 1075 := by
  rw [unitsPerOne_eq, Nat.cast_pow, Nat.cast_ofNat, div_div, ← pow_succ', unitPlaces_eq]

end Double

theorem Point.fromAxis_eq (point : Point) :
    point.fromAxis =
      √((point.x.units : ℝ) ^ 2 + (point.y.units : ℝ) ^ 2) / Double.unitsPerOne := by
  have hpos := Double.unitsPerOne_real_pos
  have hscaled : (point.x.value : ℝ) ^ 2 + (point.y.value : ℝ) ^ 2 =
      ((point.x.units : ℝ) ^ 2 + (point.y.units : ℝ) ^ 2) / (Double.unitsPerOne : ℝ) ^ 2 := by
    rw [Double.value_real, Double.value_real]
    ring
  rw [fromAxis, hscaled, Real.sqrt_div' _ (by positivity), Real.sqrt_sq hpos.le]

/-- **What a computed distance is compared as**: a number near the exact distance. -/
theorem Point.exists_lt_length_iff {point : Point} (h : point.IsFinite) :
    ∃ computed : ℝ, |computed - point.fromAxis| ≤ lengthError point.fromAxis ∧
      (min |point.x.value| |point.y.value| * 2 ^ 27 ≤ max |point.x.value| |point.y.value| →
        computed = (max |point.x.value| |point.y.value| : ℚ)) ∧
      ∀ limit : Double, limit.isFinite = true →
        (limit < .length [point.x, point.y] ↔ (limit.value : ℝ) < computed) := by
  have hpos := Double.unitsPerOne_real_pos
  have hpos' := Double.unitsPerOne_cast_pos
  obtain ⟨computed, hnear, hsmall, hlt⟩ := Double.exists_lt_length_pair_iff h.x h.y
  refine ⟨computed / Double.unitsPerOne, ?_, ?_, fun limit hlimit => ?_⟩
  · rw [point.fromAxis_eq, ← sub_div, abs_div, abs_of_pos hpos, lengthError, ← Double.half_unit_eq,
      div_right_comm, ← add_div]
    exact div_le_div_of_nonneg_right hnear hpos.le
  · rw [Double.abs_value_eq, Double.abs_value_eq, min_div_div_right hpos'.le,
      max_div_div_right hpos'.le, div_mul_eq_mul_div, div_le_div_iff_of_pos_right hpos']
    intro hle
    rw [hsmall (by exact_mod_cast hle)]
    push_cast
    rfl
  · rw [hlt limit hlimit, Double.value_real, div_lt_div_iff_of_pos_right hpos]
    exact_mod_cast Iff.rfl

/-- The distance from the axis of a point that has a coordinate of zero. -/
theorem Point.fromAxis_of_eq_zero {point : Point}
    (h : point.x.value = 0 ∨ point.y.value = 0) :
    point.fromAxis = (max |point.x.value| |point.y.value| : ℚ) := by
  obtain hx | hy := h
  · rw [fromAxis, hx, abs_zero, max_eq_right (abs_nonneg _), Rat.cast_zero, zero_pow two_ne_zero,
      zero_add, Real.sqrt_sq_eq_abs, Rat.cast_abs]
  · rw [fromAxis, hy, abs_zero, max_eq_left (abs_nonneg _), Rat.cast_zero, zero_pow two_ne_zero,
      add_zero, Real.sqrt_sq_eq_abs, Rat.cast_abs]

/-- A limit further away than the error is on the same side of what is computed as of what is
exact. -/
theorem lt_iff_lt_of_error_lt {limit computed exact error : ℝ} (hnear : |computed - exact| ≤ error)
    (hfar : error < |exact - limit|) : limit < computed ↔ limit < exact := by
  have hbounds := abs_le.mp hnear
  obtain habove | hbelow := lt_abs.mp hfar
  · exact iff_of_true (by linarith) (by linarith)
  · exact iff_of_false (by linarith) (by linarith)

namespace Bed
variable {radius maxZ : Double} {point : Point}

/-- A coordinate of at most `2 ^ -27` of the other is passed over. -/
theorem beyondRadius_mem_iff_of_share (hbed : (cylindrical radius maxZ).IsFinite)
    (hpoint : point.IsFinite)
    (hshare : min |point.x.value| |point.y.value| * 2 ^ 27 ≤ max |point.x.value| |point.y.value|) :
    .beyondRadius ∈ (cylindrical radius maxZ).violations point ↔
      radius.value < max |point.x.value| |point.y.value| := by
  obtain ⟨computed, -, hsmall, hlt⟩ := Point.exists_lt_length_iff hpoint
  have hcompared := hlt radius hbed.1
  rw [hsmall hshare, Rat.cast_lt] at hcompared
  rw [mem_violations_iff hbed hpoint, ← hcompared]
  simp [order, Breaks]

/-- Where the radius is far enough from the exact distance, that distance decides. -/
theorem beyondRadius_mem_iff_of_error_lt (hbed : (cylindrical radius maxZ).IsFinite)
    (hpoint : point.IsFinite)
    (hfar : lengthError point.fromAxis < |point.fromAxis - radius.value|) :
    .beyondRadius ∈ (cylindrical radius maxZ).violations point ↔
      (radius.value : ℝ) < point.fromAxis := by
  obtain ⟨computed, hnear, -, hlt⟩ := Point.exists_lt_length_iff hpoint
  rw [mem_violations_iff hbed hpoint, ← lt_iff_lt_of_error_lt hnear hfar, ← hlt radius hbed.1]
  simp [order, Breaks]

/-- A point next to where an axis meets the rim is beyond the rim and is not reported, if its other
coordinate is passed over. -/
theorem beyondRadius_notMem_of_share (hbed : (cylindrical radius maxZ).IsFinite)
    (hpoint : point.IsFinite) (hrim : radius.value = |point.x.value|) (hy : point.y.value ≠ 0)
    (hshare : |point.y.value| * 2 ^ 27 ≤ |point.x.value|) :
    .beyondRadius ∉ (cylindrical radius maxZ).violations point ∧
      (radius.value : ℝ) < point.fromAxis := by
  have hle : |point.y.value| ≤ |point.x.value| :=
    (le_mul_of_one_le_right (abs_nonneg _) (by norm_num)).trans hshare
  constructor
  · rw [beyondRadius_mem_iff_of_share hbed hpoint
      (by rwa [min_eq_right hle, max_eq_left hle]), max_eq_left hle, hrim]
    exact lt_irrefl _
  · have hpos : 0 < (point.y.value : ℝ) ^ 2 := by
      have hne : (point.y.value : ℝ) ≠ 0 := by exact_mod_cast hy
      positivity
    rw [hrim, Rat.cast_abs, Point.fromAxis, ← Real.sqrt_sq_eq_abs]
    exact Real.sqrt_lt_sqrt (sq_nonneg _) (lt_add_of_pos_right _ hpos)

/-- **What a cylindrical bed reports.**  The height is judged exactly.  So is the distance from the
axis, if the radius is further from it than the error of the computed length, or if one of the two
coordinates is zero.  A coordinate of at most `2 ^ -27` of the other is passed over. -/
theorem mem_violations_cylindrical (hradius : radius.isFinite = true) (hmaxZ : maxZ.isFinite = true)
    (hpoint : point.IsFinite) :
    (.belowZ ∈ (cylindrical radius maxZ).violations point ↔ point.z.value < 0) ∧
      (.beyondZ ∈ (cylindrical radius maxZ).violations point ↔ maxZ.value < point.z.value) ∧
      (lengthError point.fromAxis < |point.fromAxis - radius.value| ∨
          point.x.value = 0 ∨ point.y.value = 0 →
        (.beyondRadius ∈ (cylindrical radius maxZ).violations point ↔
          (radius.value : ℝ) < point.fromAxis)) ∧
      (min |point.x.value| |point.y.value| * 2 ^ 27 ≤ max |point.x.value| |point.y.value| →
        (.beyondRadius ∈ (cylindrical radius maxZ).violations point ↔
          radius.value < max |point.x.value| |point.y.value|)) := by
  have hbed : (cylindrical radius maxZ).IsFinite := ⟨hradius, hmaxZ⟩
  refine ⟨?_, ?_, ?_, beyondRadius_mem_iff_of_share hbed hpoint⟩
  · rw [mem_violations_iff hbed hpoint, Double.value_neg_iff]
    simp [order, Breaks]
  · rw [mem_violations_iff hbed hpoint, Double.value_lt_value]
    simp [order, Breaks]
  · rintro (hfar | hzero)
    · exact beyondRadius_mem_iff_of_error_lt hbed hpoint hfar
    · have hshare : min |point.x.value| |point.y.value| * 2 ^ 27 ≤
          max |point.x.value| |point.y.value| := by
        obtain hx | hy := hzero
        · simp [hx]
        · simp [hy]
      rw [Point.fromAxis_of_eq_zero hzero, Rat.cast_lt]
      exact beyondRadius_mem_iff_of_share hbed hpoint hshare

/-- The point (3, 4, 0) is five from the axis, which is beyond a radius of four. -/
theorem mem_violations_cylindrical_beyond :
    (4 : Double).isFinite = true ∧ (10 : Double).isFinite = true ∧
      (⟨3, 4, 0⟩ : Point).IsFinite ∧ (⟨3, 4, 0⟩ : Point).fromAxis = 5 ∧
      lengthError 5 < |5 - ((4 : Double).value : ℝ)| ∧
      .beyondRadius ∈ (cylindrical 4 10).violations ⟨3, 4, 0⟩ := by
  have hradius : (4 : Double).isFinite = true := by decide +kernel
  have hmaxZ : (10 : Double).isFinite = true := by decide +kernel
  have hpoint : (⟨3, 4, 0⟩ : Point).IsFinite := by
    constructor <;> decide +kernel
  have hthree : (3 : Double).value = (3 : ℕ) := Double.value_eq_natCast (by decide +kernel)
  have hfour : (4 : Double).value = (4 : ℕ) := Double.value_eq_natCast (by decide +kernel)
  have hdistance : (⟨3, 4, 0⟩ : Point).fromAxis = 5 := by
    rw [Point.fromAxis, hthree, hfour, Real.sqrt_eq_iff_mul_self_eq] <;> norm_num
  have hfar : lengthError 5 < |5 - ((4 : Double).value : ℝ)| := by
    have htiny : (1 : ℝ) / 2 ^ 1075 ≤ 1 / 2 ^ 1 :=
      one_div_le_one_div_of_le (by norm_num) (pow_le_pow_right₀ one_le_two (by norm_num))
    calc lengthError 5 ≤ 5 / 2 ^ 51 + 1 / 2 ^ 1 := by
          rw [lengthError]
          gcongr
      _ < |5 - ((4 : Double).value : ℝ)| := by
          rw [hfour]
          norm_num
  refine ⟨hradius, hmaxZ, hpoint, hdistance, hfar, ?_⟩
  refine ((mem_violations_cylindrical hradius hmaxZ hpoint).2.2.1 (.inl ?_)).mpr ?_
  · rwa [hdistance]
  · rw [hdistance, hfour]
    norm_num

/-- On the rim a point may be found beyond it: 35 and 120 are the legs of a right triangle with the
hypotenuse 125, but the length that is computed is larger. -/
theorem not_forall_mem_violations_cylindrical :
    ¬∀ (radius maxZ : Double) (point : Point), radius.isFinite = true → maxZ.isFinite = true →
      point.IsFinite →
      (.beyondRadius ∈ (cylindrical radius maxZ).violations point ↔
        (radius.value : ℝ) < point.fromAxis) := by
  intro h
  have hpoint : (⟨35, 120, 0⟩ : Point).IsFinite := by
    constructor <;> decide +kernel
  have hmem : Violation.beyondRadius ∈ (cylindrical 125 300).violations ⟨35, 120, 0⟩ := by
    decide +kernel
  have hx : (35 : Double).value = (35 : ℕ) := Double.value_eq_natCast (by decide +kernel)
  have hy : (120 : Double).value = (120 : ℕ) := Double.value_eq_natCast (by decide +kernel)
  have hradius : (125 : Double).value = (125 : ℕ) := Double.value_eq_natCast (by decide +kernel)
  have hdistance : (⟨35, 120, 0⟩ : Point).fromAxis = 125 := by
    rw [Point.fromAxis, hx, hy, Real.sqrt_eq_iff_mul_self_eq] <;> norm_num
  have hbeyond := (h 125 300 _ (by decide +kernel) (by decide +kernel) hpoint).mp hmem
  rw [hdistance, hradius] at hbeyond
  exact lt_irrefl _ (by exact_mod_cast hbeyond)

end Bed
end Toolpath
