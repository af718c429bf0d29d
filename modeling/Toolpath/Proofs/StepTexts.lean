import Toolpath.Instruction.Printer
import Toolpath.Proofs.NearestIntegers
import Toolpath.Proofs.PlainNumbers

/-! # Texts of decimal steps

A whole number of steps of `10 ^ -places` has one plain text (`stepsText`), and the exact value of
that text is the number of steps times the size of a step (`exactValue?_stepsText`), so different
numbers of steps have different texts (`stepsText_inj`).  Below `10 ^ 21` a double is written as the
text of its nearest number of steps (`Double.plainText_eq_stepsText`).
-/
namespace Toolpath

/-! ## Exact values of texts -/

/-- The exact value of a decimal. -/
def Decimal.value (d : Decimal) : ℚ := d.coefficient * 10 ^ d.exponent

/-- The exact value of a decimal numeral with an optional sign that fills its text. -/
def exactValue? (text : String) : Option ℚ :=
  let (negative, rest) := Numeral.scanSign text.toList
  match Numeral.scan rest with
  | (numeral, []) =>
    if numeral.whole.isEmpty && (numeral.fraction.getD []).isEmpty then none
    else some (if negative then -numeral.toDecimal.value else numeral.toDecimal.value)
  | _ => none

theorem NumberText.exactValue?_chars (text : NumberText) :
    exactValue? (String.ofList text.chars) =
      some (if text.negative then -text.numeral.toDecimal.value
        else text.numeral.toDecimal.value) := by
  have hscan := text.scan_append endsNumeral_nil
  rw [List.append_nil] at hscan
  have hwhole : text.numeral.whole.isEmpty = false :=
    List.isEmpty_eq_false_iff.mpr text.whole_ne_nil
  rw [exactValue?, String.toList_ofList, text.scanSign_chars]
  dsimp only
  rw [hscan]
  dsimp only
  rw [hwhole, Bool.false_and, if_neg Bool.false_ne_true]

/-! ## Steps -/

/-- The plain text of a whole number of steps of `10 ^ -places`. -/
def stepsText (places : ℕ) (i : ℤ) : String :=
  String.ofList (NumberText.ofSteps (i < 0) i.natAbs places).chars

/-- The double nearest to a whole number of steps of `10 ^ -places`. -/
def Double.ofSteps (places : ℕ) (i : ℤ) : Double := .ofDecimal (i < 0) ⟨i.natAbs, -places⟩

theorem ofText?_stepsText (places : ℕ) (i : ℤ) :
    Double.ofText? (stepsText places i) = some (.ofSteps places i) := by
  rw [stepsText, NumberText.ofText?_chars, NumberText.value_ofSteps, Double.ofSteps]

/-- The digits behind the point make up for the power of ten. -/
theorem NumberText.value_toDecimal_ofSteps (negative : Bool) (steps places : ℕ) :
    (ofSteps negative steps places).numeral.toDecimal.value = (steps : ℚ) / 10 ^ places := by
  obtain ⟨count, hlength, hdigits⟩ := exists_digits_ofSteps negative steps places
  have hexponent : (ofSteps negative steps places).numeral.exponent = 0 := rfl
  have hwhole : (ofSteps negative steps places).numeral.whole =
      (ofSteps negative steps places).whole := rfl
  rw [Numeral.toDecimal, numeral_fraction_getD, Decimal.value, hexponent, hwhole]
  generalize Nat.ofDigitChars 10 _ 0 = digits at hdigits ⊢
  generalize (ofSteps negative steps places).fraction.length = length at hlength ⊢
  dsimp only
  rw [zero_sub, zpow_neg, zpow_natCast, ← hdigits, ← hlength, pow_add]
  push_cast
  field_simp

/-- **The exact value of the text** of a number of steps. -/
theorem exactValue?_stepsText (places : ℕ) (i : ℤ) :
    exactValue? (stepsText places i) = some ((i : ℚ) / 10 ^ places) := by
  have hnegative : (NumberText.ofSteps (i < 0) i.natAbs places).negative = decide (i < 0) := rfl
  rw [stepsText, NumberText.exactValue?_chars, NumberText.value_toDecimal_ofSteps, hnegative,
    Nat.cast_natAbs, Int.cast_abs]
  by_cases hi : i < 0
  · have hi' : (i : ℚ) < 0 := by exact_mod_cast hi
    rw [if_pos (decide_eq_true hi), abs_of_neg hi', neg_div, neg_neg]
  · have hi' : (0 : ℚ) ≤ i := by exact_mod_cast not_lt.mp hi
    rw [if_neg (by rw [decide_eq_false hi]; decide), abs_of_nonneg hi']

/-- Different numbers of steps have different texts. -/
theorem stepsText_inj {places : ℕ} {i j : ℤ} : stepsText places i = stepsText places j ↔ i = j := by
  constructor
  · intro h
    have hvalue := congrArg exactValue? h
    rw [exactValue?_stepsText, exactValue?_stepsText, Option.some_inj,
      div_left_inj' (by positivity), Int.cast_inj] at hvalue
    exact hvalue
  · intro h
    rw [h]

/-! ## Doubles in plain form -/

namespace Double

theorem isHuge_eq_false_iff {x : Double} (h : x.isFinite = true) :
    x.isHuge = false ↔ |x.value| < 10 ^ 21 := by
  obtain ⟨negative, size, rfl⟩ := exists_finite_of_isFinite h
  rw [abs_value_finite, div_lt_iff₀ unitsPerOne_cast_pos, Bool.eq_false_iff, ne_eq, isHuge_finite,
    not_le]
  exact_mod_cast Iff.rfl

/-- **Below `10 ^ 21` a double is written as its nearest number of steps**, a tie going away from
zero. -/
theorem plainText_eq_stepsText {x : Double} (h : x.isHuge = false) :
    x.plainText = stepsText plainPlaces (x.nearestSteps .away plainPlaces) := by
  obtain ⟨negative, size, rfl⟩ := exists_eq_finite h
  have hsteps : (finite negative size).nearestSteps .away plainPlaces =
      signed negative (size.steps plainPlaces) := rfl
  rw [plainText, stepsText, hsteps, decide_signed_lt_zero, natAbs_signed, NumberText.chars_ofSteps]
  simp only [plainChars, h, Bool.false_eq_true, if_false]
  rfl

/-- What a double is written as: a text in plain form with at most six decimals, none of them a
needless zero, and the exact value of the text, the number of millionths nearest to that of the
double. -/
structure IsWritten (x : Double) (text : String) (written : ℚ) : Prop where
  plain? : x.plain? = .ok text
  form : ∃ decimals, decimals.length ≤ 6 ∧ decimals.getLast? ≠ some '0' ∧
    IsPlainDecimal decimals text.toList
  ne_empty : text ≠ ""
  ne_minus_zero : text ≠ "-0"
  value : exactValue? text = some written
  nearest : ∃ i : ℤ, IsNearest .away (x.value * 10 ^ 6) i ∧ written = i / 10 ^ 6

theorem isWritten_stepsText {x : Double} (hfinite : x.isFinite = true)
    (hsmall : |x.value| < 10 ^ 21) :
    x.IsWritten (stepsText plainPlaces (x.nearestSteps .away plainPlaces))
      ((x.nearestSteps .away plainPlaces : ℤ) / 10 ^ plainPlaces) := by
  have hhuge := (isHuge_eq_false_iff hfinite).mpr hsmall
  obtain ⟨decimals, hlength, hlast, hform, hzero⟩ := isPlainDecimal_plainChars hhuge
  have htext := plainText_eq_stepsText hhuge
  refine ⟨?_, ⟨decimals, hlength, hlast, ?_⟩, ?_, ?_, exactValue?_stepsText _ _,
    _, isNearest_nearestSteps .away plainPlaces hfinite, rfl⟩
  · rw [Double.plain?, if_pos hfinite, htext]
  · rw [← htext, plainText, String.toList_ofList]
    exact hform
  · intro hempty
    have hvalue := exactValue?_stepsText plainPlaces (x.nearestSteps .away plainPlaces)
    rw [hempty] at hvalue
    cases hvalue
  · rw [← htext]
    intro hminus
    have hchars := congrArg String.toList hminus
    rw [plainText, String.toList_ofList] at hchars
    exact hzero hchars

end Double

/-- **Doubles below `10 ^ 21` are written in plain form, rounded to millionths.**  The order of the
doubles is kept, and two of them have the same text exactly where it has the same value. -/
theorem exists_isWritten {u v : Double} (hu : u.isFinite = true) (husmall : |u.value| < 10 ^ 21)
    (hv : v.isFinite = true) (hvsmall : |v.value| < 10 ^ 21) :
    ∃ s t x y, u.IsWritten s x ∧ v.IsWritten t y ∧ (u.value ≤ v.value → x ≤ y) ∧
      (s = t ↔ x = y) := by
  refine ⟨_, _, _, _, Double.isWritten_stepsText hu husmall, Double.isWritten_stepsText hv hvsmall,
    ?_, ?_⟩
  · intro hle
    have hscaled : u.value * 10 ^ Double.plainPlaces ≤ v.value * 10 ^ Double.plainPlaces :=
      mul_le_mul_of_nonneg_right hle (by positivity)
    have hsteps := (Double.isNearest_nearestSteps .away Double.plainPlaces hu).mono hscaled
      (Double.isNearest_nearestSteps .away Double.plainPlaces hv)
    exact div_le_div_of_nonneg_right (by exact_mod_cast hsteps) (by positivity)
  · rw [stepsText_inj, div_left_inj' (by positivity), Int.cast_inj]

/-- An odd number of parts of `128` is a tie between millionths, on either side of zero. -/
theorem exists_isWritten_ties :
    (-0.0078125 : Double).isFinite = true ∧ |(-0.0078125 : Double).value| < 10 ^ 21 ∧
      (0.0078125 : Double).isFinite = true ∧ |(0.0078125 : Double).value| < 10 ^ 21 ∧
      ∃ s t x y, (-0.0078125 : Double).IsWritten s x ∧ (0.0078125 : Double).IsWritten t y ∧
        ((-0.0078125 : Double).value ≤ (0.0078125 : Double).value → x ≤ y) ∧ (s = t ↔ x = y) := by
  have hfinite : (0.0078125 : Double).isFinite = true := by decide +kernel
  have hfinite' : (-0.0078125 : Double).isFinite = true := by decide +kernel
  have hsmall := (Double.isHuge_eq_false_iff hfinite).mp (by decide +kernel)
  have hsmall' := (Double.isHuge_eq_false_iff hfinite').mp (by decide +kernel)
  exact ⟨hfinite', hsmall', hfinite, hsmall, exists_isWritten hfinite' hsmall' hfinite hsmall⟩

end Toolpath
