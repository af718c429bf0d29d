import Toolpath.Proofs.Coordinates
import Toolpath.Proofs.NumberTexts

/-! # Numbers read back

The shortest text of a finite double reads back to the double (`Double.ofText?_shortestText`), and
so does the plain text of a coordinate, for all that it keeps six places only
(`Double.ofText?_plainText`).  In both cases the text is shown to be a number text, and its value is
the double by what was proved of the search for the shortest decimal and of decimal steps.
-/
namespace Toolpath

/-! ## Digits -/

theorem isDigit_of_mem_toDigits {n : Nat} {c : Char} (h : c ∈ Nat.toDigits 10 n) :
    c.isDigit = true :=
  Nat.isDigit_of_mem_toDigits (by decide) (by decide) h

theorem head?_toDigits_ne_zero {n : Nat} (hpos : 0 < n) :
    (Nat.toDigits 10 n).head? ≠ some '0' := by
  induction n using Nat.strongRecOn with
  | ind n ih =>
    by_cases hsmall : n < 10
    · have hdigit : ∀ m < 10, 0 < m → Nat.digitChar m ≠ '0' := by decide
      rw [Nat.toDigits_of_lt_base hsmall]
      intro hhead
      exact hdigit n hsmall hpos (Option.some.inj hhead)
    · rw [Nat.toDigits_of_base_le (by decide) (by omega), List.head?_append,
        Option.or_of_isSome (List.isSome_head?.mpr Nat.toDigits_ne_nil)]
      exact ih (n / 10) (by omega) (by omega)

/-- The digits of a natural begin with a zero only where there is no other digit. -/
theorem toDigits_noLeadingZero (n : Nat) :
    (Nat.toDigits 10 n).length = 1 ∨ (Nat.toDigits 10 n).head? ≠ some '0' := by
  by_cases hsmall : n < 10
  · left
    rw [Nat.toDigits_of_lt_base hsmall]
    rfl
  · exact .inr (head?_toDigits_ne_zero (by omega))

theorem isDigit_of_mem_replicate {n : Nat} {c : Char} (h : c ∈ List.replicate n '0') :
    c.isDigit = true := by
  rw [List.eq_of_mem_replicate h]
  rfl

theorem isDigit_of_mem_lastDigits {places n : Nat} {c : Char} (h : c ∈ lastDigits places n) :
    c.isDigit = true := by
  induction places generalizing n with
  | zero => cases h
  | succ places ih =>
    rw [lastDigits, List.mem_append, List.mem_singleton] at h
    rcases h with h | rfl
    · exact ih h
    · rw [Nat.isDigit_digitChar]
      exact decide_eq_true (Nat.mod_lt n (by decide))

theorem ofDigitChars_lastDigits (places n start : Nat) :
    Nat.ofDigitChars 10 (lastDigits places n) start = start * 10 ^ places + n % 10 ^ places := by
  induction places generalizing n with
  | zero => rw [lastDigits, Nat.ofDigitChars_nil, Nat.pow_zero, Nat.mod_one, Nat.mul_one]; rfl
  | succ places ih =>
    have hsplit : n % 10 ^ (places + 1) = n % 10 + 10 * (n / 10 % 10 ^ places) := by
      rw [Nat.pow_succ', Nat.mod_mul]
    rw [lastDigits, Nat.ofDigitChars_append, ih,
      Nat.ofDigitChars_cons_digitChar_of_lt_ten (Nat.mod_lt n (by decide)),
      Nat.ofDigitChars_nil, hsplit, Nat.pow_succ]
    ring

/-- Zeros in front do not count. -/
theorem ofDigitChars_replicate_append (count : Nat) (digits : List Char) :
    Nat.ofDigitChars 10 (List.replicate count '0' ++ digits) 0 = Nat.ofDigitChars 10 digits 0 := by
  rw [Nat.ofDigitChars_append, Nat.ofDigitChars_replicate_zero, Nat.mul_zero]

/-- Zeros behind count as a power of ten. -/
theorem ofDigitChars_append_replicate (digits : List Char) (count : Nat) :
    Nat.ofDigitChars 10 (digits ++ List.replicate count '0') 0 =
      Nat.ofDigitChars 10 digits 0 * 10 ^ count := by
  rw [Nat.ofDigitChars_append, Nat.ofDigitChars_replicate_zero, Nat.mul_comm]

/-- What `dropFinalZeros` drops are zeros. -/
theorem exists_eq_dropFinalZeros_append (digits : List Char) :
    ∃ count, digits = dropFinalZeros digits ++ List.replicate count '0' := by
  refine ⟨(digits.reverse.takeWhile (· == '0')).length, ?_⟩
  have hzeros : digits.reverse.takeWhile (· == '0') =
      List.replicate (digits.reverse.takeWhile (· == '0')).length '0' := by
    refine List.eq_replicate_of_mem fun c hc => ?_
    exact beq_iff_eq.mp (List.all_eq_true.mp (List.all_takeWhile) c hc)
  rw [dropFinalZeros, ← List.reverse_replicate, ← hzeros, ← List.reverse_append,
    List.takeWhile_append_dropWhile, List.reverse_reverse]

theorem mem_of_mem_dropFinalZeros {digits : List Char} {c : Char} (h : c ∈ dropFinalZeros digits) :
    c ∈ digits := by
  obtain ⟨count, hcount⟩ := exists_eq_dropFinalZeros_append digits
  rw [hcount]
  exact List.mem_append_left _ h

/-! ## Values -/

namespace Double

theorem units_eq_of_ofRatio {negative : Bool} {num den : Nat} {size : Magnitude}
    (h : ofRatio negative num den = finite negative size) : size.units = nearestUnits num den := by
  rcases ofRatio_cases negative num den with ⟨other, hunits, heq⟩ | heq
  · rw [h] at heq
    cases heq
    exact hunits
  · rw [h] at heq
    cases heq

/-- The sign does not matter for where a quotient is rounded to. -/
theorem ofRatio_eq_finite_of_false {num den : Nat} {size : Magnitude} (negative : Bool)
    (h : ofRatio false num den = finite false size) :
    ofRatio negative num den = finite negative size :=
  ofRatio_eq_finite (units_eq_of_ofRatio h).symm

theorem ofDecimal_eq_finite_of_readsBack {size : Magnitude} {d : Decimal} (negative : Bool)
    (h : size.readsBack d = true) : ofDecimal negative d = finite negative size := by
  rw [Magnitude.readsBack, decide_eq_true_eq, ofDecimal_eq_ofRatio] at h
  rw [ofDecimal_eq_ofRatio]
  exact ofRatio_eq_finite_of_false negative h

/-- A zero at the end of the coefficient can go over to the power of ten. -/
theorem ofDecimal_mul_ten (negative : Bool) (coefficient : Nat) (exponent : Int) :
    ofDecimal negative ⟨coefficient * 10, exponent⟩ =
      ofDecimal negative ⟨coefficient, exponent + 1⟩ := by
  refine ofDecimal_congr negative ?_
  simp only [Decimal.numerator, Decimal.denominator]
  by_cases hexponent : 0 ≤ exponent
  · rw [show (exponent + 1).toNat = exponent.toNat + 1 by omega,
      show (-exponent).toNat = 0 by omega, show (-(exponent + 1)).toNat = 0 by omega, Nat.pow_succ]
    ring
  · rw [show (-exponent).toNat = (-(exponent + 1)).toNat + 1 by omega,
      show exponent.toNat = 0 by omega, show (exponent + 1).toNat = 0 by omega, Nat.pow_succ]
    ring

theorem ofDecimal_mul_ten_pow (negative : Bool) (coefficient count : Nat) (exponent : Int) :
    ofDecimal negative ⟨coefficient * 10 ^ count, exponent⟩ =
      ofDecimal negative ⟨coefficient, exponent + count⟩ := by
  induction count generalizing exponent with
  | zero => rw [Nat.pow_zero, Nat.mul_one, Nat.cast_zero, Int.add_zero]
  | succ count ih =>
    rw [Nat.pow_succ, ← Nat.mul_assoc, ofDecimal_mul_ten, ih]
    congr 2
    push_cast
    omega

theorem ofDecimal_stripZeros (negative : Bool) (d : Decimal) :
    ofDecimal negative d.stripZeros = ofDecimal negative d := by
  fun_induction Decimal.stripZeros d with
  | case1 d h ih =>
    rw [ih, ← ofDecimal_mul_ten, Nat.div_mul_cancel (Nat.dvd_of_mod_eq_zero h.2)]
  | case2 d h => rfl

theorem ofDecimal_shortest (negative : Bool) (size : Magnitude) :
    ofDecimal negative size.shortest = finite negative size := by
  rw [Magnitude.shortest, ofDecimal_stripZeros]
  exact ofDecimal_eq_finite_of_readsBack negative size.readsBack_reading

end Double

/-! ## The shortest text -/

/-- The minus of a number text. -/
def minusChars (negative : Bool) : List Char := if negative then ['-'] else []

/-- The digits of a decimal with zeros behind them, for a decimal that is a whole number. -/
theorem Decimal.exists_numberText_whole (negative : Bool) {d : Decimal} (h : 0 ≤ d.exponent) :
    ∃ text : NumberText, text.chars = minusChars negative ++
        (Nat.toDigits 10 d.coefficient ++ List.replicate d.exponent.toNat '0') ∧
      text.value = Double.ofDecimal negative d ∧
      (d.coefficient ≠ 0 → text.NoLeadingZero) := by
  refine ⟨⟨negative, Nat.toDigits 10 d.coefficient ++ List.replicate d.exponent.toNat '0', [], none,
    ?_, ?_, fun _ h => by cases h⟩, ?_, ?_, fun hne => ?_⟩
  · exact fun hnil => Nat.toDigits_ne_nil (List.append_eq_nil_iff.mp hnil).1
  · intro c hc
    rcases List.mem_append.mp hc with hc | hc
    · exact isDigit_of_mem_toDigits hc
    · exact isDigit_of_mem_replicate hc
  · exact congrArg (minusChars negative ++ ·) (List.append_nil _)
  · simp only [NumberText.value, NumberText.exponent, Option.map_none, Option.getD_none,
      List.append_nil, List.length_nil, Nat.cast_zero]
    rw [ofDigitChars_append_replicate, Nat.ofDigitChars_ten_toDigits,
      Double.ofDecimal_mul_ten_pow]
    congr 2
    omega
  · right
    rw [List.head?_append, Option.or_of_isSome (List.isSome_head?.mpr Nat.toDigits_ne_nil)]
    exact head?_toDigits_ne_zero (Nat.pos_of_ne_zero hne)

/-- The digits of a decimal in two parts, zeros in front of them and a power of ten behind them that
makes up for where the point stands. -/
theorem Decimal.exists_numberText_split (negative : Bool) {d : Decimal} {whole fraction : List Char}
    (power : Option PowerText) (zeros : Nat) (hwhole : whole ≠ [])
    (hlead : whole.length = 1 ∨ whole.head? ≠ some '0')
    (hdigits : whole ++ fraction = List.replicate zeros '0' ++ Nat.toDigits 10 d.coefficient)
    (hexponent : (power.map PowerText.value).getD 0 - fraction.length = d.exponent) :
    ∃ text : NumberText, text.chars = minusChars negative ++
        (withPoint whole fraction ++ (power.map PowerText.chars).getD []) ∧
      text.value = Double.ofDecimal negative d ∧ text.NoLeadingZero := by
  have hall : ∀ c ∈ whole ++ fraction, c.isDigit = true := by
    intro c hc
    rw [hdigits, List.mem_append] at hc
    rcases hc with hc | hc
    · exact isDigit_of_mem_replicate hc
    · exact isDigit_of_mem_toDigits hc
  refine ⟨⟨negative, whole, fraction, power, hwhole, ?_, ?_⟩, rfl, ?_, hlead⟩
  · exact fun c hc => hall c (List.mem_append_left _ hc)
  · exact fun c hc => hall c (List.mem_append_right _ hc)
  · simp only [NumberText.value, NumberText.exponent]
    rw [hdigits, ofDigitChars_replicate_append, Nat.ofDigitChars_ten_toDigits, hexponent]

/-- A power of ten as it is written behind the shortest digits. -/
def PowerText.signed (power : Int) : PowerText where
  capital := false
  minus := some (power < 0)
  digits := Nat.toDigits 10 power.natAbs
  digits_ne_nil := Nat.toDigits_ne_nil
  isDigit_digits := fun _ h => isDigit_of_mem_toDigits h

theorem PowerText.chars_signed (power : Int) :
    (PowerText.signed power).chars =
      'e' :: (if power < 0 then '-' else '+') :: Nat.toDigits 10 power.natAbs := by
  by_cases h : power < 0 <;> simp [chars, letter, signChars, signed, h]

theorem PowerText.value_signed (power : Int) : (PowerText.signed power).value = power := by
  rw [value, signed]
  dsimp only
  rw [Nat.ofDigitChars_ten_toDigits]
  by_cases h : power < 0
  · rw [if_pos (by rw [decide_eq_true h])]
    omega
  · rw [if_neg (by rw [decide_eq_false h]; decide)]
    omega

theorem withPoint_of_ne_nil (whole : List Char) {fraction : List Char} (h : fraction ≠ []) :
    withPoint whole fraction = whole ++ '.' :: fraction := by
  rw [withPoint, if_neg]
  exact fun hempty => h (List.isEmpty_iff.mp hempty)

/-- A point behind the first digit, if there are more. -/
theorem withPoint_take_drop (digits : List Char) :
    withPoint (digits.take 1) (digits.drop 1) =
      if digits.length ≤ 1 then digits else digits.take 1 ++ '.' :: digits.drop 1 := by
  split
  · rename_i hlength
    rw [List.drop_eq_nil_of_le hlength, List.take_of_length_le hlength]
    rfl
  · rename_i hlength
    refine withPoint_of_ne_nil _ fun hnil => hlength ?_
    exact List.drop_eq_nil_iff.mp hnil

/-- The first digits of a natural begin with a zero only where there is no other digit. -/
theorem take_toDigits_noLeadingZero (n : Nat) {count : Nat} (hcount : 0 < count) :
    ((Nat.toDigits 10 n).take count).length = 1 ∨
      ((Nat.toDigits 10 n).take count).head? ≠ some '0' := by
  rw [List.length_take, List.head?_take, if_neg (Nat.ne_of_gt hcount)]
  rcases toDigits_noLeadingZero n with hlength | hhead
  · left
    omega
  · exact .inr hhead

/-- **Every layout of a decimal is a number text of its value**, with no zero in front of another
digit unless the decimal is zero. -/
theorem Decimal.exists_numberText_toChars (negative : Bool) (d : Decimal) :
    ∃ text : NumberText, text.chars = minusChars negative ++ d.toChars ∧
      text.value = Double.ofDecimal negative d ∧
      (d.coefficient ≠ 0 → text.NoLeadingZero) := by
  have hlength : 0 < (Nat.toDigits 10 d.coefficient).length := Nat.length_toDigits_pos
  have hpart (count : Nat) : (Nat.toDigits 10 d.coefficient).take count ++
      (Nat.toDigits 10 d.coefficient).drop count =
        List.replicate 0 '0' ++ Nat.toDigits 10 d.coefficient := List.take_append_drop _ _
  have htake {count : Nat} (hcount : 0 < count) :
      (Nat.toDigits 10 d.coefficient).take count ≠ [] := by
    intro hnil
    rcases List.take_eq_nil_iff.mp hnil with hzero | hdigits
    · omega
    · exact Nat.toDigits_ne_nil hdigits
  have hany {chars : List Char} (htext : ∃ text : NumberText, text.chars = chars ∧
      text.value = Double.ofDecimal negative d ∧ text.NoLeadingZero) :
      ∃ text : NumberText, text.chars = chars ∧ text.value = Double.ofDecimal negative d ∧
        (d.coefficient ≠ 0 → text.NoLeadingZero) := by
    obtain ⟨text, hchars, hvalue, hlead⟩ := htext
    exact ⟨text, hchars, hvalue, fun _ => hlead⟩
  unfold toChars
  dsimp only
  split
  · split
    · -- all digits are whole
      rw [show (d.exponent + (Nat.toDigits 10 d.coefficient).length).toNat -
        (Nat.toDigits 10 d.coefficient).length = d.exponent.toNat by omega]
      exact exists_numberText_whole negative (by omega)
    · -- the point stands between two digits
      rename_i hbefore
      generalize hcount : (d.exponent + (Nat.toDigits 10 d.coefficient).length).toNat = count
        at hbefore
      have hdrop : (Nat.toDigits 10 d.coefficient).drop count ≠ [] :=
        fun hnil => hbefore (List.drop_eq_nil_iff.mp hnil)
      have htext := exists_numberText_split negative none 0 (htake (by omega))
        (take_toDigits_noLeadingZero _ (by omega)) (hpart count) (by
          rw [List.length_drop, Option.map_none, Option.getD_none]
          omega)
      rw [withPoint_of_ne_nil _ hdrop, Option.map_none, Option.getD_none, List.append_nil] at htext
      exact hany htext
  · split
    · -- zeros stand between the point and the digits
      generalize hzeros : (-(d.exponent + (Nat.toDigits 10 d.coefficient).length)).toNat = zeros
      have hfraction : List.replicate zeros '0' ++ Nat.toDigits 10 d.coefficient ≠ [] :=
        fun hnil => Nat.toDigits_ne_nil (List.append_eq_nil_iff.mp hnil).2
      have hdigits : ['0'] ++ (List.replicate zeros '0' ++ Nat.toDigits 10 d.coefficient) =
          List.replicate (zeros + 1) '0' ++ Nat.toDigits 10 d.coefficient := by
        rw [List.replicate_succ]
        rfl
      have htext := exists_numberText_split negative none (zeros + 1) (List.cons_ne_nil _ _)
        (.inl rfl) hdigits (by
          rw [List.length_append, List.length_replicate, Option.map_none, Option.getD_none]
          omega)
      rw [withPoint_of_ne_nil _ hfraction, Option.map_none, Option.getD_none,
        List.append_nil] at htext
      exact hany htext
    · -- one digit stands before the point, and a power behind
      have htext := exists_numberText_split negative
        (some (.signed (d.exponent + (Nat.toDigits 10 d.coefficient).length - 1))) 0
        (htake Nat.one_pos) (take_toDigits_noLeadingZero _ Nat.one_pos) (hpart 1) (by
          rw [Option.map_some, Option.getD_some, PowerText.value_signed, List.length_drop]
          omega)
      rw [Option.map_some, Option.getD_some, PowerText.chars_signed, withPoint_take_drop] at htext
      exact hany htext

theorem Double.signChars_finite {negative : Bool} {size : Magnitude}
    (h : size.units = 0 → negative = false) :
    (finite negative size).signChars = minusChars negative := by
  rw [signChars, minusChars]
  by_cases hzero : size.units = 0
  · rw [h hzero]
    rfl
  · have hisZero : (finite negative size).isZero = false :=
      Bool.eq_false_iff.mpr fun hz => hzero (isZero_finite.mp hz)
    rw [hisZero, Bool.not_false, Bool.and_true]
    rfl

theorem Double.shortestChars_zero (negative : Bool) : (zero negative).shortestChars = ['0'] := by
  cases negative <;> decide +kernel

/-- The shortest decimal of a size other than zero has a digit other than zero. -/
theorem Magnitude.coefficient_shortest_ne_zero {size : Magnitude} (h : size.units ≠ 0) :
    size.shortest.coefficient ≠ 0 := by
  intro hzero
  have hback := Double.ofDecimal_shortest false size
  rw [Double.ofDecimal, if_pos (.inl hzero)] at hback
  exact h (congrArg Magnitude.units (Double.finite.inj hback).2).symm

/-- The shortest text of a finite double is a number text of that double, with no zero in front of
another digit. -/
theorem Double.exists_numberText_shortestChars {negative : Bool} {size : Magnitude}
    (h : size.units = 0 → negative = false) :
    ∃ text : NumberText, text.chars = (finite negative size).shortestChars ∧
      text.value = finite negative size ∧ text.NoLeadingZero := by
  by_cases hzero : size.units = 0
  · have heq : finite negative size = zero false := by
      rw [h hzero, zero]
      exact congrArg (finite false) (Magnitude.ext hzero)
    rw [heq, shortestChars_zero]
    exact ⟨⟨false, ['0'], [], none, List.cons_ne_nil _ _, List.all_eq_true.mp rfl, nofun⟩, rfl, rfl,
      .inl rfl⟩
  · obtain ⟨text, hchars, hvalue, hlead⟩ := size.shortest.exists_numberText_toChars negative
    refine ⟨text, ?_, ?_, hlead (Magnitude.coefficient_shortest_ne_zero hzero)⟩
    · rw [hchars, shortestChars, signChars_finite h]
    · rw [hvalue, ofDecimal_shortest]

/-- **The shortest text reads back**, the sign of zero apart. -/
theorem Double.ofText?_shortestText {negative : Bool} {size : Magnitude}
    (h : size.units = 0 → negative = false) :
    ofText? (finite negative size).shortestText = some (finite negative size) := by
  obtain ⟨text, hchars, hvalue, -⟩ := exists_numberText_shortestChars h
  rw [shortestText, ← hchars, text.ofText?_chars, hvalue]

/-! ## Plain text -/

/-- A number of steps of `10 ^ -places` as a number text, the zeros at its end left out. -/
def NumberText.ofSteps (negative : Bool) (steps places : Nat) : NumberText where
  negative
  whole := Nat.toDigits 10 (steps / 10 ^ places)
  fraction := dropFinalZeros (lastDigits places steps)
  power := none
  whole_ne_nil := Nat.toDigits_ne_nil
  isDigit_whole := fun _ h => isDigit_of_mem_toDigits h
  isDigit_fraction := fun _ h => isDigit_of_mem_lastDigits (mem_of_mem_dropFinalZeros h)

namespace NumberText
variable (negative : Bool) (steps places : Nat)

theorem chars_ofSteps :
    (ofSteps negative steps places).chars = minusChars negative ++
      withPoint (Nat.toDigits 10 (steps / 10 ^ places))
        (dropFinalZeros (lastDigits places steps)) :=
  congrArg (minusChars negative ++ ·) (List.append_nil _)

/-- The digits of a number of steps are those of the steps, but for zeros at their end. -/
theorem exists_digits_ofSteps :
    ∃ count, (ofSteps negative steps places).fraction.length + count = places ∧
      Nat.ofDigitChars 10 ((ofSteps negative steps places).whole ++
        (ofSteps negative steps places).fraction) 0 * 10 ^ count = steps := by
  obtain ⟨count, hcount⟩ := exists_eq_dropFinalZeros_append (lastDigits places steps)
  refine ⟨count, ?_, ?_⟩
  · have hlengths := congrArg List.length hcount
    rw [length_lastDigits, List.length_append, List.length_replicate] at hlengths
    exact hlengths.symm
  · rw [ofSteps, ← ofDigitChars_append_replicate, List.append_assoc, ← hcount,
      Nat.ofDigitChars_append, Nat.ofDigitChars_ten_toDigits, ofDigitChars_lastDigits,
      Nat.div_add_mod']

/-- The text of a number of steps is read as their double. -/
theorem value_ofSteps :
    (ofSteps negative steps places).value = Double.ofDecimal negative ⟨steps, -places⟩ := by
  obtain ⟨count, hlength, hdigits⟩ := exists_digits_ofSteps negative steps places
  generalize hfraction : (ofSteps negative steps places).fraction = fraction at hlength hdigits
  have hexponent : (ofSteps negative steps places).exponent = 0 := rfl
  rw [value, hexponent, hfraction]
  conv_rhs => rw [← hdigits, Double.ofDecimal_mul_ten_pow]
  congr 2
  omega

end NumberText

/-- The plain text of a coordinate is a number text of that coordinate. -/
theorem Double.exists_numberText_plainChars {x : Double} (h : x.IsCoordinate) :
    ∃ text : NumberText, text.chars = x.plainChars ∧ text.value = x := by
  cases x with
  | nan => exact h.elim
  | infinite negative => exact h.elim
  | finite negative size =>
    obtain ⟨hsteps, hzero⟩ := h
    cases hhuge : (finite negative size).isHuge with
    | true =>
      obtain ⟨text, hchars, hvalue, -⟩ := exists_numberText_shortestChars hzero
      refine ⟨text, ?_, hvalue⟩
      rw [hchars, plainChars, hhuge, if_pos rfl]
    | false =>
      -- six places hold whatever came from three
      have hback := (hsteps.mono (by decide : coordinatePlaces ≤ plainPlaces)).nearestUnits_steps
        (by decide) (by decide)
      refine ⟨.ofSteps negative (size.steps plainPlaces) plainPlaces, ?_, ?_⟩
      · -- the minus is left out only where no step is left, and a zero has none
        have hsign : (negative && decide (size.steps plainPlaces ≠ 0)) = negative := by
          by_cases hnone : size.steps plainPlaces = 0
          · rw [hnone, Nat.zero_mul, nearestUnits_zero (ten_pow_pos _)] at hback
            rw [hzero hback.symm]
            rfl
          · rw [decide_eq_true hnone, Bool.and_true]
        simp only [plainChars, hhuge, Bool.false_eq_true, if_false, hsign]
        exact NumberText.chars_ofSteps negative (size.steps plainPlaces) plainPlaces
      · rw [NumberText.value_ofSteps, ofDecimal_steps, ofRatio_eq_finite hback]

/-- **The plain text of a coordinate reads back.** -/
theorem Double.ofText?_plainText {x : Double} (h : x.IsCoordinate) :
    ofText? x.plainText = some x := by
  obtain ⟨text, hchars, hvalue⟩ := exists_numberText_plainChars h
  rw [plainText, ← hchars, text.ofText?_chars, hvalue]

/-! ## Characters

The text of a finite double holds numeral characters only, whether it is a coordinate or not. -/

theorem isNumeralChar_of_mem_minusChars {negative : Bool} {c : Char} (h : c ∈ minusChars negative) :
    IsNumeralChar c := by
  unfold minusChars at h
  split at h
  · exact .inr (.inl (List.mem_singleton.mp h))
  · cases h

namespace Double
variable {negative : Bool} {size : Magnitude} {c : Char}

theorem isNumeralChar_of_mem_signChars (x : Double) (h : c ∈ x.signChars) : IsNumeralChar c :=
  isNumeralChar_of_mem_minusChars h

theorem isNumeralChar_of_mem_shortestChars (h : c ∈ (finite negative size).shortestChars) :
    IsNumeralChar c := by
  rw [shortestChars, List.mem_append] at h
  rcases h with h | h
  · exact isNumeralChar_of_mem_signChars _ h
  · obtain ⟨text, hchars, -⟩ := size.shortest.exists_numberText_toChars false
    have hmem : c ∈ text.chars := by
      rw [hchars]
      exact List.mem_append_right _ h
    exact NumberText.isNumeralChar hmem

theorem isNumeralChar_of_mem_plainChars (h : c ∈ (finite negative size).plainChars) :
    IsNumeralChar c := by
  unfold plainChars at h
  dsimp only at h
  split at h
  · exact isNumeralChar_of_mem_shortestChars h
  · rw [List.mem_append] at h
    rcases h with h | h
    · exact isNumeralChar_of_mem_minusChars h
    · refine isNumeralChar_of_mem_withPoint (fun d hd => isDigit_of_mem_toDigits hd) ?_ h
      exact fun d hd => isDigit_of_mem_lastDigits (mem_of_mem_dropFinalZeros hd)

theorem isNumeralChar_of_mem_fixedChars {places : Nat}
    (h : c ∈ fixedChars places (finite negative size)) : IsNumeralChar c := by
  unfold fixedChars at h
  dsimp only at h
  split at h
  · exact isNumeralChar_of_mem_shortestChars h
  · rw [List.mem_append] at h
    rcases h with h | h
    · exact isNumeralChar_of_mem_signChars _ h
    · exact isNumeralChar_of_mem_withPoint (fun d hd => isDigit_of_mem_toDigits hd)
        (fun d hd => isDigit_of_mem_lastDigits hd) h

end Double
end Toolpath
