import Toolpath.Proofs.ReadBack

/-! # Numbers in plain decimal form

A number is in plain decimal form where no power of ten is written (`IsPlainDecimal`).  Below
`10 ^ 21` the two ways of writing a number into a program give that form, with the decimals that
each promises (`Double.isPlainDecimal_fixedChars`, `Double.isPlainDecimal_plainChars`).  From
`10 ^ 21` on the shortest text stands for both, and the sign of its power gives it away
(`Double.plus_mem_shortestChars`).
-/
namespace Toolpath

/-- A number with no power of ten: an optional minus, whole digits with no zero in front of another,
and some decimals behind a point, or no point where there are none. -/
def IsPlainDecimal (decimals number : List Char) : Prop :=
  ∃ text : NumberText, text.chars = number ∧ text.NoLeadingZero ∧ text.power = none ∧
    text.fraction = decimals

/-- No sign but a minus stands in a plain number. -/
theorem IsPlainDecimal.plus_notMem {decimals number : List Char}
    (h : IsPlainDecimal decimals number) : '+' ∉ number := by
  obtain ⟨text, rfl, -, hpower, -⟩ := h
  have hdigit {c : Char} (hc : c.isDigit = true) : c ≠ '+' := by
    rintro rfl
    cases hc
  intro hplus
  rw [NumberText.chars, NumberText.unsignedChars, NumberText.powerChars, hpower, List.mem_append,
    Option.map_none, Option.getD_none, List.append_nil] at hplus
  rcases hplus with hplus | hplus
  · split at hplus
    · cases List.mem_singleton.mp hplus
    · cases hplus
  · unfold withPoint at hplus
    split at hplus
    · exact hdigit (text.isDigit_whole _ hplus) rfl
    · rw [List.mem_append, List.mem_cons] at hplus
      rcases hplus with hplus | hplus | hplus
      · exact hdigit (text.isDigit_whole _ hplus) rfl
      · cases hplus
      · exact hdigit (text.isDigit_fraction _ hplus) rfl

/-! ## Below `10 ^ 21` -/

theorem isPlainDecimal_withPoint (negative : Bool) (n : Nat) {decimals : List Char}
    (h : ∀ c ∈ decimals, c.isDigit = true) :
    IsPlainDecimal decimals (minusChars negative ++ withPoint (Nat.toDigits 10 n) decimals) := by
  refine ⟨⟨negative, Nat.toDigits 10 n, decimals, none, Nat.toDigits_ne_nil,
    fun _ hc => isDigit_of_mem_toDigits hc, h⟩, ?_, toDigits_noLeadingZero n, rfl, rfl⟩
  exact congrArg (minusChars negative ++ ·) (List.append_nil _)

theorem getLast?_dropFinalZeros (digits : List Char) :
    (dropFinalZeros digits).getLast? ≠ some '0' := by
  intro hlast
  rw [dropFinalZeros, List.getLast?_reverse] at hlast
  have hnot := List.head?_dropWhile_not (· == '0') digits.reverse
  rw [hlast] at hnot
  cases hnot

/-- Where dropping zeros leaves nothing, there was nothing else. -/
theorem mod_eq_zero_of_dropFinalZeros {places steps : Nat}
    (h : dropFinalZeros (lastDigits places steps) = []) : steps % 10 ^ places = 0 := by
  obtain ⟨count, hcount⟩ := exists_eq_dropFinalZeros_append (lastDigits places steps)
  have hvalue := ofDigitChars_lastDigits places steps 0
  rw [hcount, h, List.nil_append, Nat.ofDigitChars_replicate_zero, Nat.mul_zero, Nat.zero_mul,
    Nat.zero_add] at hvalue
  exact hvalue.symm

/-- A lone zero is written for no steps only. -/
theorem eq_zero_of_withPoint {places steps : Nat}
    (h : withPoint (Nat.toDigits 10 (steps / 10 ^ places))
      (dropFinalZeros (lastDigits places steps)) = ['0']) : steps = 0 := by
  unfold withPoint at h
  split at h
  · rename_i hempty
    have hmod := mod_eq_zero_of_dropFinalZeros (List.isEmpty_iff.mp hempty)
    have hdiv : steps / 10 ^ places = 0 := by
      have hvalue := Nat.ofDigitChars_ten_toDigits (n := steps / 10 ^ places)
      rw [h] at hvalue
      exact hvalue.symm
    rw [← Nat.div_add_mod steps (10 ^ places), hdiv, hmod]
    rfl
  · have hpoint : '.' ∈ ['0'] := by
      rw [← h]
      simp
    cases List.mem_singleton.mp hpoint

/-- No minus stands in front of digits but the sign. -/
theorem withPoint_ne_minus_cons {n : Nat} {decimals : List Char}
    (h : ∀ c ∈ decimals, c.isDigit = true) (rest : List Char) :
    withPoint (Nat.toDigits 10 n) decimals ≠ '-' :: rest := by
  intro heq
  have hminus : '-' ∈ withPoint (Nat.toDigits 10 n) decimals := by
    rw [heq]
    exact List.mem_cons_self
  unfold withPoint at hminus
  split at hminus
  · cases isDigit_of_mem_toDigits hminus
  · rw [List.mem_append, List.mem_cons] at hminus
    rcases hminus with hminus | hminus | hminus
    · cases isDigit_of_mem_toDigits hminus
    · cases hminus
    · cases h _ hminus

/-- A minus is written only where some step is left. -/
theorem plain_ne_minus_zero (negative : Bool) (steps places : Nat) :
    minusChars (negative && decide (steps ≠ 0)) ++
      withPoint (Nat.toDigits 10 (steps / 10 ^ places))
        (dropFinalZeros (lastDigits places steps)) ≠ ['-', '0'] := by
  intro hzero
  cases hsign : negative && decide (steps ≠ 0) with
  | false =>
    rw [hsign] at hzero
    refine withPoint_ne_minus_cons (fun c hc => ?_) ['0'] hzero
    exact isDigit_of_mem_lastDigits (mem_of_mem_dropFinalZeros hc)
  | true =>
    rw [hsign] at hzero
    have hsteps := eq_zero_of_withPoint (List.cons.inj hzero).2
    rw [hsteps, Bool.and_eq_true] at hsign
    exact absurd rfl (of_decide_eq_true hsign.2)

namespace Double
variable {x : Double}

theorem exists_eq_finite (h : x.isHuge = false) : ∃ negative size, x = finite negative size := by
  cases x with
  | nan => cases h
  | infinite negative => cases h
  | finite negative size => exact ⟨negative, size, rfl⟩

/-- **A fixed number of decimals** is what a double below `10 ^ 21` is written with. -/
theorem isPlainDecimal_fixedChars (h : x.isHuge = false) (places : Nat) :
    ∃ decimals, decimals.length = places ∧ IsPlainDecimal decimals (x.fixedChars places) := by
  obtain ⟨negative, size, rfl⟩ := exists_eq_finite h
  refine ⟨lastDigits places (size.steps places), length_lastDigits _ _, ?_⟩
  rw [fixedChars, h, if_neg Bool.false_ne_true]
  exact isPlainDecimal_withPoint _ _ fun c hc => isDigit_of_mem_lastDigits hc

/-- **At most six decimals**, the last of them no zero, are what a double below `10 ^ 21` is written
with plainly, and never a zero with a minus. -/
theorem isPlainDecimal_plainChars (h : x.isHuge = false) :
    ∃ decimals, decimals.length ≤ plainPlaces ∧ decimals.getLast? ≠ some '0' ∧
      IsPlainDecimal decimals x.plainChars ∧ x.plainChars ≠ ['-', '0'] := by
  obtain ⟨negative, size, rfl⟩ := exists_eq_finite h
  simp only [plainChars, h, Bool.false_eq_true, if_false]
  generalize size.steps plainPlaces = steps
  have hdigits : ∀ c ∈ dropFinalZeros (lastDigits plainPlaces steps), c.isDigit = true :=
    fun c hc => isDigit_of_mem_lastDigits (mem_of_mem_dropFinalZeros hc)
  refine ⟨dropFinalZeros (lastDigits plainPlaces steps), ?_, getLast?_dropFinalZeros _,
    isPlainDecimal_withPoint _ _ hdigits, ?_⟩
  · obtain ⟨count, hcount⟩ := exists_eq_dropFinalZeros_append (lastDigits plainPlaces steps)
    have hlength := congrArg List.length hcount
    rw [length_lastDigits, List.length_append] at hlength
    omega
  · exact plain_ne_minus_zero negative steps plainPlaces

end Double

/-! ## From `10 ^ 21` on -/

/-- A decimal whose point stands at the widest position or before it lies below `10 ^ 21`. -/
theorem Decimal.numerator_lt {d : Decimal}
    (h : d.exponent + (Nat.toDigits 10 d.coefficient).length ≤ widestPosition) :
    d.numerator < 10 ^ 21 * d.denominator := by
  have hwidest : widestPosition = 21 := rfl
  have hdigits : d.coefficient < 10 ^ (Nat.toDigits 10 d.coefficient).length :=
    (Nat.length_toDigits_le_iff (by decide) Nat.length_toDigits_pos).mp (Nat.le_refl _)
  rw [numerator, denominator, ← Nat.pow_add]
  calc d.coefficient * 10 ^ d.exponent.toNat
      < 10 ^ (Nat.toDigits 10 d.coefficient).length * 10 ^ d.exponent.toNat :=
        Nat.mul_lt_mul_of_pos_right hdigits (ten_pow_pos _)
    _ = 10 ^ ((Nat.toDigits 10 d.coefficient).length + d.exponent.toNat) := (Nat.pow_add _ _ _).symm
    _ ≤ 10 ^ (21 + (-d.exponent).toNat) := Nat.pow_le_pow_right (by decide) (by omega)

/-- A decimal whose point stands behind the widest position is written with a positive power. -/
theorem Decimal.plus_mem_toChars {d : Decimal}
    (h : widestPosition < d.exponent + (Nat.toDigits 10 d.coefficient).length) :
    '+' ∈ d.toChars := by
  have hwidest : widestPosition = 21 := rfl
  unfold toChars
  dsimp only
  rw [if_neg (by omega), if_neg (by omega), if_neg (show ¬ _ < (0 : Int) by omega)]
  simp

theorem onGrid_ten_pow : OnGrid (10 ^ 21 * Double.unitsPerOne) := by
  have hsplit : 10 ^ 21 = 5 ^ 21 * 2 ^ 21 := by decide
  rw [hsplit]
  exact onGrid_mul_two_pow_mul_unitsPerOne 21 (by decide)

/-- The double `10 ^ 21` itself is the least that is written with a power. -/
theorem plus_mem_toChars_of_units_eq {size : Magnitude}
    (h : size.units = 10 ^ 21 * Double.unitsPerOne) : '+' ∈ size.shortest.toChars := by
  have hsize : Double.ofDecimal false ⟨1, 21⟩ = .finite false size := by
    rw [Double.ofDecimal_eq_ofRatio]
    refine Double.ofRatio_eq_finite ?_
    have hnumerator : (Decimal.mk 1 21).numerator * Double.unitsPerOne =
        10 ^ 21 * Double.unitsPerOne * (Decimal.mk 1 21).denominator := by
      rw [Decimal.numerator, Decimal.denominator]
      simp
    rw [hnumerator, nearestUnits_mul_self (Decimal.denominator_pos _) onGrid_ten_pow, h]
  have hplus : '+' ∈ (Double.ofDecimal false ⟨1, 21⟩).shortestChars := by decide +kernel
  rw [hsize, Double.shortestChars, List.mem_append] at hplus
  rcases hplus with hplus | hplus
  · cases hplus
  · exact hplus

namespace Double

/-- **A double from `10 ^ 21` on** is written with a plus in front of its power. -/
theorem plus_mem_shortestChars {negative : Bool} {size : Magnitude}
    (h : (finite negative size).isHuge = true) : '+' ∈ (finite negative size).shortestChars := by
  rw [shortestChars]
  refine List.mem_append_right _ ?_
  by_cases hposition : Decimal.widestPosition <
      size.shortest.exponent + (Nat.toDigits 10 size.shortest.coefficient).length
  · exact Decimal.plus_mem_toChars hposition
  · -- the decimal lies below `10 ^ 21`, and so the double it reads back to is not above it
    have hlt := Decimal.numerator_lt (Int.not_lt.mp hposition)
    have hback := ofDecimal_shortest false size
    rw [ofDecimal_eq_ofRatio] at hback
    have hle : size.units ≤ 10 ^ 21 * unitsPerOne := by
      rw [units_eq_of_ofRatio hback]
      refine nearestUnits_le (Decimal.denominator_pos _) onGrid_ten_pow ?_
      rw [Nat.mul_right_comm]
      exact Nat.mul_le_mul_right _ (Nat.le_of_lt hlt)
    exact plus_mem_toChars_of_units_eq (Nat.le_antisymm hle (isHuge_finite.mp h))

end Double
end Toolpath
