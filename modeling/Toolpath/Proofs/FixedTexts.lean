import Toolpath.Proofs.RoundedArithmetic

/-! # Numbers written with a fixed number of places

Below `10 ^ 21` the text of a double with a number of places has the exact value of its nearest
number of steps (`Double.exactValue?_fixedText`).  From there on the shortest text takes its place,
and of that it is known only that it reads back.  Reading keeps the order of exact values
(`NumberText.units_value_mono`), so the order of two doubles is seen in their texts all the same:
were the texts the other way round, the doubles would be one and the same.  The two kinds of text
meet at `10 ^ 21`, which is written exactly, so **what is written keeps the order**
(`Double.written_mono`).
-/
namespace Toolpath

/-! ## Rounding two quotients -/

theorem roundQuotient_mul_mul (num : ℤ) (den : ℕ) {k : ℕ} (hden : 0 < den) (hk : 0 < k) :
    roundQuotient (num * k) (den * k) = roundQuotient num den := by
  have hsigned : num * k = signed (num < 0) (num.natAbs * k) := by
    rw [signed_mul, signed_natAbs]
  rw [hsigned, roundQuotient_signed _ _ (Nat.mul_pos hden hk), nearestUnits_mul_mul _ _ hk,
    roundQuotient]

/-- Rounding keeps the order of quotients with any denominators. -/
theorem roundQuotient_mono_of_mul_le {num num' : ℤ} {den den' : ℕ} (hden : 0 < den)
    (hden' : 0 < den') (h : num * den' ≤ num' * den) :
    roundQuotient num den ≤ roundQuotient num' den' := by
  rw [← roundQuotient_mul_mul num den hden hden', ← roundQuotient_mul_mul num' den' hden' hden,
    Nat.mul_comm den' den]
  exact roundQuotient_mono (Nat.mul_pos hden hden') h

/-- An integer is the nearest one to itself. -/
theorem isNearest_intCast (tie : Tie) (i : ℤ) : IsNearest tie (i : ℚ) i := by
  refine ⟨fun j => ?_, fun j hne heq => absurd ?_ hne⟩
  · rw [sub_self, abs_zero]
    exact abs_nonneg _
  · rw [sub_self, abs_zero, abs_eq_zero, sub_eq_zero] at heq
    exact_mod_cast heq

/-! ## Exact values of number texts -/

theorem Decimal.value_eq_div (d : Decimal) : d.value = (d.numerator : ℚ) / d.denominator := by
  rw [Decimal.value, Decimal.numerator, Decimal.denominator]
  rcases le_total 0 d.exponent with h | h
  · obtain ⟨power, hpower⟩ := Int.eq_ofNat_of_zero_le h
    rw [hpower, Int.toNat_natCast, Int.toNat_neg_natCast, zpow_natCast]
    push_cast
    rw [div_one]
  · obtain ⟨power, hpower⟩ := Int.eq_ofNat_of_zero_le (Int.neg_nonneg.mpr h)
    have hexponent : d.exponent = -power := by omega
    rw [hexponent, Int.toNat_neg_natCast, neg_neg, Int.toNat_natCast, zpow_neg, zpow_natCast]
    push_cast
    rw [mul_one, div_eq_mul_inv]

namespace NumberText
variable {s t : NumberText}

/-- The number that a text states, before it is rounded to a double. -/
def exact (text : NumberText) : ℚ :=
  signed text.negative text.numeral.toDecimal.numerator / text.numeral.toDecimal.denominator

theorem exactValue?_chars_eq_exact (text : NumberText) :
    exactValue? (String.ofList text.chars) = some text.exact := by
  rw [text.exactValue?_chars, Decimal.value_eq_div, exact]
  cases text.negative with
  | false =>
    rw [if_neg Bool.false_ne_true]
    rfl
  | true =>
    rw [if_pos rfl, ← neg_div]
    simp [signed]

/-- A text is read as what its exact value is rounded to. -/
theorem rounds_value (text : NumberText) :
    text.value.Rounds
      (signed text.negative text.numeral.toDecimal.numerator * Double.unitsPerOne)
      text.numeral.toDecimal.denominator := by
  rw [← text.ofDecimal_numeral, Double.ofDecimal_eq_ofRatio, ← signed_mul]
  exact Double.rounds_ofRatio _ _ (Decimal.denominator_pos _)

/-- **Reading keeps the order** of exact values. -/
theorem units_value_mono (hs : s.value.isFinite = true) (ht : t.value.isFinite = true)
    (h : s.exact ≤ t.exact) : s.value.units ≤ t.value.units := by
  have hden := s.numeral.toDecimal.denominator_pos
  have hden' := t.numeral.toDecimal.denominator_pos
  rw [s.rounds_value.units_eq hs, t.rounds_value.units_eq ht]
  refine roundQuotient_mono_of_mul_le hden hden' ?_
  rw [exact, exact, div_le_div_iff₀ (by exact_mod_cast hden) (by exact_mod_cast hden')] at h
  rw [mul_right_comm, mul_right_comm (signed t.negative _)]
  exact mul_le_mul_of_nonneg_right (by exact_mod_cast h) (Int.natCast_nonneg _)

/-- What is on the grid bounds the double that a text is read as. -/
theorem units_value_le (text : NumberText) {n : ℤ} (hfinite : text.value.isFinite = true)
    (hgrid : OnGrid (n * Double.unitsPerOne).natAbs) (h : text.exact ≤ n) :
    text.value.units ≤ n * Double.unitsPerOne := by
  have hden := text.numeral.toDecimal.denominator_pos
  rw [text.rounds_value.units_eq hfinite]
  refine roundQuotient_le hden hgrid ?_
  rw [exact, div_le_iff₀ (by exact_mod_cast hden)] at h
  rw [mul_right_comm]
  exact mul_le_mul_of_nonneg_right (by exact_mod_cast h) (Int.natCast_nonneg _)

theorem le_units_value (text : NumberText) {n : ℤ} (hfinite : text.value.isFinite = true)
    (hgrid : OnGrid (n * Double.unitsPerOne).natAbs) (h : n ≤ text.exact) :
    n * Double.unitsPerOne ≤ text.value.units := by
  have hden := text.numeral.toDecimal.denominator_pos
  rw [text.rounds_value.units_eq hfinite]
  refine le_roundQuotient hden hgrid ?_
  rw [exact, le_div_iff₀ (by exact_mod_cast hden)] at h
  rw [mul_right_comm]
  exact mul_le_mul_of_nonneg_right (by exact_mod_cast h) (Int.natCast_nonneg _)

/-- A number of steps of `10 ^ -places` as a number text with all of its places. -/
def fixed (negative : Bool) (steps places : ℕ) : NumberText :=
  { ofSteps negative steps places with
    fraction := lastDigits places steps
    isDigit_fraction := fun _ h => isDigit_of_mem_lastDigits h }

theorem chars_fixed (negative : Bool) (steps places : ℕ) :
    (fixed negative steps places).chars = minusChars negative ++
      withPoint (Nat.toDigits 10 (steps / 10 ^ places)) (lastDigits places steps) :=
  congrArg (minusChars negative ++ ·) (List.append_nil _)

/-- The digits of the text, taken together, are those of the number of steps. -/
theorem exact_fixed (negative : Bool) (steps places : ℕ) :
    (fixed negative steps places).exact = (signed negative steps : ℚ) / 10 ^ places := by
  have hdigits : Nat.ofDigitChars 10
      (Nat.toDigits 10 (steps / 10 ^ places) ++ lastDigits places steps) 0 = steps := by
    rw [Nat.ofDigitChars_append, Nat.ofDigitChars_ten_toDigits, ofDigitChars_lastDigits,
      Nat.div_add_mod']
  have hdecimal : (fixed negative steps places).numeral.toDecimal = ⟨steps, -places⟩ := by
    rw [Numeral.toDecimal, numeral_fraction_getD]
    refine congrArg₂ Decimal.mk hdigits ?_
    have hexponent : (fixed negative steps places).numeral.exponent = 0 := rfl
    have hfraction : (fixed negative steps places).fraction = lastDigits places steps := rfl
    rw [hexponent, hfraction, length_lastDigits, Int.zero_sub]
  have hnegative : (fixed negative steps places).negative = negative := rfl
  rw [exact, hdecimal, hnegative, Decimal.numerator, Decimal.denominator]
  simp only [Int.toNat_neg_natCast, neg_neg, Int.toNat_natCast, pow_zero, mul_one]
  push_cast
  rfl

end NumberText

namespace Double
variable {x y : Double} {places : ℕ} {p q : ℚ}

/-! ## Below `10 ^ 21` -/

/-- **The exact value of a text with a fixed number of places** is the nearest number of steps, a
tie going away from zero. -/
theorem exactValue?_fixedText (h : x.isHuge = false) (places : ℕ) :
    exactValue? (x.fixedText places) =
      some ((x.nearestSteps .away places : ℚ) / 10 ^ places) := by
  obtain ⟨negative, size, rfl⟩ := exists_eq_finite h
  have hchars : (finite negative size).fixedChars places =
      (NumberText.fixed (negative && !(finite negative size).isZero) (size.steps places)
        places).chars := by
    rw [fixedChars, h, if_neg Bool.false_ne_true, NumberText.chars_fixed]
    rfl
  have hsteps : (finite negative size).nearestSteps .away places =
      signed negative (size.steps places) := rfl
  rw [fixedText, hchars, NumberText.exactValue?_chars_eq_exact, NumberText.exact_fixed, hsteps]
  cases hzero : (finite negative size).isZero with
  | false => rw [Bool.not_false, Bool.and_true]
  | true =>
    -- a zero has no minus, and nothing to take one
    have hnone : size.steps places = 0 := by
      have hself := roundDiv_mul_self .away 0 unitsPerOne_pos
      rw [Nat.zero_mul] at hself
      rw [Magnitude.steps, isZero_finite.mp hzero, Nat.zero_mul, hself]
    rw [hnone, signed_zero, signed_zero]

/-- Rounding a double below `10 ^ 21` does not go beyond that. -/
theorem abs_nearestSteps_div_le (h : x.isHuge = false) (places : ℕ) :
    |(x.nearestSteps .away places : ℚ) / 10 ^ places| ≤ 10 ^ 21 := by
  obtain ⟨negative, size, rfl⟩ := exists_eq_finite h
  have hsmall := (isHuge_eq_false_iff (x := finite negative size) rfl).mp h
  have hnearest := isNearest_nearestSteps .away places (x := finite negative size) rfl
  have hpow : (0 : ℚ) < 10 ^ places := by positivity
  have hbound := isNearest_intCast .away (10 ^ 21 * 10 ^ places)
  have hbound' := isNearest_intCast .away (-(10 ^ 21 * 10 ^ places))
  push_cast at hbound hbound'
  rw [abs_lt] at hsmall
  have hhigh := hnearest.mono (by nlinarith) hbound
  have hlow := hbound'.mono (by nlinarith) hnearest
  rw [abs_div, abs_of_pos hpow, div_le_iff₀ hpow, abs_le]
  exact ⟨by exact_mod_cast hlow, by exact_mod_cast hhigh⟩

/-! ## From `10 ^ 21` on -/

theorem fixedText_of_isHuge (h : x.isHuge = true) (places : ℕ) :
    x.fixedText places = x.shortestText := by
  cases x with
  | nan => rfl
  | infinite negative => rfl
  | finite negative size => rw [fixedText, fixedChars, h, if_pos rfl, shortestText]

/-- `10 ^ 21` as it is written. -/
theorem exists_numberText_ten_pow (negative : Bool) :
    ∃ text : NumberText, text.chars = minusChars negative ++ "1e+21".toList ∧
      text.exact = (signed negative (10 ^ 21) : ℤ) := by
  refine ⟨⟨negative, ['1'], [], some (.signed 21), List.cons_ne_nil _ _, List.all_eq_true.mp rfl,
    fun _ h => by cases h⟩, ?_, ?_⟩
  · cases negative <;> decide +kernel
  · have hdecimal (text : NumberText) (h : text.numeral = ⟨['1'], none, 21⟩) :
        text.exact = (signed text.negative (10 ^ 21) : ℤ) := by
      rw [NumberText.exact, h]
      have hnumerator : (Numeral.toDecimal ⟨['1'], none, 21⟩).numerator = 10 ^ 21 := by decide
      have hdenominator : (Numeral.toDecimal ⟨['1'], none, 21⟩).denominator = 1 := by decide
      rw [hnumerator, hdenominator, Nat.cast_one, div_one]
    refine hdecimal _ ?_
    cases negative <;> decide +kernel

/-- The least double that is written with a power of ten is written exactly. -/
theorem exact_of_units_eq {text : NumberText} {negative : Bool} {size : Magnitude}
    (hchars : text.chars = (finite negative size).shortestChars)
    (h : size.units = 10 ^ 21 * unitsPerOne) : text.exact = (signed negative (10 ^ 21) : ℤ) := by
  have hsize : finite false size = ofNat (10 ^ 21) := by
    rw [ofNat, ← h, ← Nat.mul_one size.units, ofRatio_mul false size Nat.one_pos]
  have hne : size.units ≠ 0 := by
    rw [h]
    exact Nat.ne_of_gt (Nat.mul_pos (by decide) unitsPerOne_pos)
  have hdigits : size.shortest.toChars = "1e+21".toList := by
    have hshortest : (ofNat (10 ^ 21)).shortestChars = "1e+21".toList := by decide +kernel
    rwa [← hsize, shortestChars, signChars_finite fun _ => rfl] at hshortest
  obtain ⟨written, hwritten, hexact⟩ := exists_numberText_ten_pow negative
  rw [shortestChars, signChars_finite fun hzero => absurd hzero hne, hdigits, ← hwritten] at hchars
  have hvalue := congrArg (fun chars => exactValue? (String.ofList chars)) hchars
  simp only [NumberText.exactValue?_chars_eq_exact, Option.some_inj] at hvalue
  rw [hvalue, hexact]

/-- Less than `10 ^ 21` is not read as more, so a text that is read as a double from there on
states no less than that. -/
theorem ten_pow_le_abs_exact {text : NumberText} {negative : Bool} {size : Magnitude}
    (hchars : text.chars = (finite negative size).shortestChars)
    (hvalue : text.value = finite negative size) (h : (finite negative size).isHuge = true) :
    10 ^ 21 ≤ |text.exact| := by
  by_contra hlt
  have hlt' := not_le.mp hlt
  have hbounds := abs_le.mp (le_of_lt hlt')
  have hgrid : OnGrid ((10 ^ 21 : ℤ) * unitsPerOne).natAbs := by
    rw [Int.natAbs_mul, Int.natAbs_natCast]
    exact onGrid_ten_pow
  have hfinite : text.value.isFinite = true := by rw [hvalue]; rfl
  have hhigh := text.units_value_le hfinite hgrid (by exact_mod_cast hbounds.2)
  have hlow := text.le_units_value hfinite (n := -10 ^ 21)
    (by rwa [Int.neg_mul, Int.natAbs_neg]) (by exact_mod_cast hbounds.1)
  have hhuge := isHuge_finite.mp h
  rw [hvalue, units_finite] at hhigh hlow
  have hunits : size.units = 10 ^ 21 * unitsPerOne := by
    have habs := abs_signed negative size.units
    rcases abs_cases (signed negative size.units) with ⟨heq, -⟩ | ⟨heq, -⟩ <;>
      · zify at hhuge ⊢
        linarith
  rw [exact_of_units_eq hchars hunits, ← Int.cast_abs, abs_signed] at hlt'
  norm_num at hlt'

/-- The text of a double from `10 ^ 21` on reads back, and states a number from `10 ^ 21` on. -/
theorem exists_numberText_of_isHuge (hfinite : x.isFinite = true) (h : x.isHuge = true)
    (places : ℕ) :
    ∃ text : NumberText, x.fixedText places = String.ofList text.chars ∧ text.value = x ∧
      10 ^ 21 ≤ |text.exact| := by
  obtain ⟨negative, size, rfl⟩ := exists_finite_of_isFinite hfinite
  have hpos : 0 < 10 ^ 21 * unitsPerOne := Nat.mul_pos (by decide) unitsPerOne_pos
  have hne : size.units ≠ 0 := Nat.ne_of_gt (Nat.lt_of_lt_of_le hpos (isHuge_finite.mp h))
  have hsign : size.units = 0 → negative = false := fun hzero => absurd hzero hne
  obtain ⟨text, hchars, hvalue, -⟩ := exists_numberText_shortestChars hsign
  refine ⟨text, ?_, hvalue, ten_pow_le_abs_exact hchars hvalue h⟩
  rw [fixedText_of_isHuge h, shortestText, hchars]

/-! ## Order -/

/-- The number that the text of a double states. -/
def written (places : ℕ) (x : Double) : ℚ := (exactValue? (x.fixedText places)).getD 0

/-- Every finite double is written as a number. -/
theorem exactValue?_fixedText_eq_written (hx : x.isFinite = true) (places : ℕ) :
    exactValue? (x.fixedText places) = some (x.written places) := by
  have hsome : ∃ p, exactValue? (x.fixedText places) = some p := by
    cases hhuge : x.isHuge with
    | false => exact ⟨_, exactValue?_fixedText hhuge places⟩
    | true =>
      obtain ⟨text, htext, -⟩ := exists_numberText_of_isHuge hx hhuge places
      exact ⟨text.exact, by rw [htext, text.exactValue?_chars_eq_exact]⟩
  obtain ⟨p, hp⟩ := hsome
  rw [written, hp, Option.getD_some]

theorem written_of_not_huge (h : x.isHuge = false) (places : ℕ) :
    x.written places = (x.nearestSteps .away places : ℚ) / 10 ^ places := by
  rw [written, exactValue?_fixedText h, Option.getD_some]

theorem written_eq_exact {text : NumberText} (h : x.fixedText places = String.ofList text.chars) :
    x.written places = text.exact := by
  rw [written, h, text.exactValue?_chars_eq_exact, Option.getD_some]

theorem isHuge_iff (hx : x.isFinite = true) :
    x.isHuge = true ↔ 10 ^ 21 * unitsPerOne ≤ x.units.natAbs := by
  obtain ⟨negative, size, rfl⟩ := exists_finite_of_isFinite hx
  rw [isHuge_finite, units_finite, natAbs_signed]

/-- From `10 ^ 21` on a text has the sign of its double. -/
theorem ten_pow_le_written (hx : x.isFinite = true) (hhuge : x.isHuge = true) (hpos : 0 ≤ x.units) :
    10 ^ 21 ≤ x.written places := by
  obtain ⟨text, htext, rfl, hlarge⟩ := exists_numberText_of_isHuge hx hhuge places
  rw [written_eq_exact htext]
  have hunits := (isHuge_iff hx).mp hhuge
  have hone := unitsPerOne_pos
  have hpositive : 0 < text.exact := by
    by_contra hle
    have hbound := text.units_value_le (n := 0) hx (by rw [zero_mul]; exact onGrid_zero)
      (by exact_mod_cast not_lt.mp hle)
    omega
  rwa [abs_of_pos hpositive] at hlarge

theorem written_le_neg_ten_pow (hx : x.isFinite = true) (hhuge : x.isHuge = true)
    (hneg : x.units ≤ 0) : x.written places ≤ -10 ^ 21 := by
  obtain ⟨text, htext, rfl, hlarge⟩ := exists_numberText_of_isHuge hx hhuge places
  rw [written_eq_exact htext]
  have hunits := (isHuge_iff hx).mp hhuge
  have hone := unitsPerOne_pos
  have hnegative : text.exact < 0 := by
    by_contra hge
    have hbound := text.le_units_value (n := 0) hx (by rw [zero_mul]; exact onGrid_zero)
      (by exact_mod_cast not_lt.mp hge)
    omega
  rw [abs_of_neg hnegative] at hlarge
  linarith

/-- **What is written keeps the order of the doubles.** -/
theorem written_mono (hx : x.isFinite = true) (hy : y.isFinite = true) (h : x.units ≤ y.units)
    (places : ℕ) : x.written places ≤ y.written places := by
  have hone := unitsPerOne_pos
  have hxhuge := isHuge_iff hx
  have hyhuge := isHuge_iff hy
  cases hx' : x.isHuge <;> cases hy' : y.isHuge <;> simp only [hx', hy', false_iff, true_iff,
    Bool.false_eq_true, not_le] at hxhuge hyhuge
  case false.false =>
    have hscaled : x.value * 10 ^ places ≤ y.value * 10 ^ places :=
      mul_le_mul_of_nonneg_right (value_le_value.mpr h) (by positivity)
    have hsteps := (isNearest_nearestSteps .away places hx).mono hscaled
      (isNearest_nearestSteps .away places hy)
    rw [written_of_not_huge hx', written_of_not_huge hy']
    exact div_le_div_of_nonneg_right (by exact_mod_cast hsteps) (by positivity)
  case false.true =>
    rw [written_of_not_huge hx']
    have hbelow := (abs_le.mp (abs_nearestSteps_div_le hx' places)).2
    exact le_trans hbelow (ten_pow_le_written hy hy' (by omega))
  case true.false =>
    rw [written_of_not_huge hy']
    have habove := (abs_le.mp (abs_nearestSteps_div_le hy' places)).1
    exact le_trans (written_le_neg_ten_pow hx hx' (by omega)) habove
  case true.true =>
    -- were the texts the other way round, they would be read the other way round
    by_contra hgt
    obtain ⟨text, htext, hvalue, -⟩ := exists_numberText_of_isHuge hx hx' places
    obtain ⟨text', htext', hvalue', -⟩ := exists_numberText_of_isHuge hy hy' places
    have hle : text'.exact ≤ text.exact := by
      rw [← written_eq_exact htext, ← written_eq_exact htext']
      exact le_of_lt (not_le.mp hgt)
    have hread := NumberText.units_value_mono (by rwa [hvalue']) (by rwa [hvalue]) hle
    rw [hvalue, hvalue'] at hread
    have hsame : x = y := eq_of_units_eq hx hy (le_antisymm h hread) (by omega)
    rw [hsame] at hgt
    exact hgt (le_refl _)

end Double
end Toolpath
