import Toolpath.Proofs.RoundedArithmetic

/-! # Lengths are not negative

A length is the root of a sum of squares, added up with the rounding error of each addition carried
into the next one.  What is carried may be taken off the next term, and more than the term: the sum
stays at or above zero because what is carried never exceeds the sum so far
(`Double.excess_le_total`, `Double.RunningSum.Bounded`).  So the length of up to thirty components
that are numbers is never negative and never NaN (`Double.isNonnegative_length`).
-/
namespace Toolpath.Double

/-- A double from zero to one. -/
structure IsPart (x : Double) : Prop where
  isFinite : x.isFinite = true
  nonneg : 0 ≤ x.units
  le_one : x.units ≤ unitsPerOne

/-- Zero or more, infinity included. -/
inductive IsNonnegative : Double → Prop
  | finite {x : Double} (hfinite : x.isFinite = true) (hnonneg : 0 ≤ x.units) : IsNonnegative x
  | infinite : IsNonnegative (.infinite false)

theorem unitsPerOne_cast_int_pos : (0 : ℤ) < unitsPerOne := by exact_mod_cast unitsPerOne_pos

/-! ## Running sums -/

/-- **What is carried on is at most the total.**  Either the addition of `term` to `total` takes off
at most half of it, and then the new total is at least what was taken off; or it takes off more, and
then nothing is rounded and nothing is carried. -/
theorem excess_le_total {total term next : ℤ} (htotal : OnGrid total.natAbs)
    (hterm : OnGrid term.natAbs) (hnonneg : 0 ≤ total) (hlow : -total ≤ term)
    (hnext : next = roundQuotient (total + term) 1) :
    roundQuotient (roundQuotient (next - total) 1 - term) 1 ≤ next := by
  have hgrid : OnGrid next.natAbs := by
    rw [hnext]
    exact onGrid_roundQuotient _ _
  apply roundQuotient_le Nat.one_pos hgrid
  rw [Nat.cast_one, mul_one]
  rcases Int.lt_or_le term 0 with hneg | hpos
  · by_cases hhalf : -(2 * term) ≤ total
    · have hdown : next ≤ total := by
        rw [hnext]
        exact roundQuotient_le Nat.one_pos htotal (by omega)
      have hlost : roundQuotient (next - total) 1 ≤ 0 :=
        roundQuotient_le Nat.one_pos onGrid_zero (by omega)
      have hkept : -term ≤ next := by
        rw [hnext]
        exact le_roundQuotient Nat.one_pos (by rwa [Int.natAbs_neg]) (by omega)
      omega
    · -- the two are within a factor of two, so their difference is a double
      have hdiff : OnGrid (total + term).natAbs := by
        have hsub := htotal.sub hterm (by omega) (by omega)
        rwa [show (total + term).natAbs = total.natAbs - term.natAbs by omega]
      rw [roundQuotient_one hdiff] at hnext
      have hlost : roundQuotient (next - total) 1 = term := by
        rw [hnext, add_sub_cancel_left, roundQuotient_one hterm]
      have hsum : 0 ≤ next := by omega
      omega
  · have hlost : roundQuotient (next - total) 1 ≤ next :=
      roundQuotient_le Nat.one_pos hgrid (by omega)
    omega

namespace RunningSum
variable {sum : RunningSum} {term : Double} {terms : List Double} {ones : ℕ}

/-- A running sum of terms from zero to one: the total is not negative, what is carried is at most
the total, and neither is larger than so many ones. -/
structure Bounded (sum : RunningSum) (ones : ℕ) : Prop where
  total_finite : sum.total.isFinite = true
  excess_finite : sum.excess.isFinite = true
  nonneg : 0 ≤ sum.total.units
  total_le : sum.total.units ≤ ones * unitsPerOne
  excess_le : sum.excess.units ≤ sum.total.units
  le_excess : -(2 * (ones * unitsPerOne)) ≤ sum.excess.units

/-- **One more term.** -/
theorem Bounded.add (h : sum.Bounded ones) (hterm : term.IsPart) (hones : 3 * ones + 1 ≤ 2 ^ 52) :
    (sum.add term).Bounded (3 * ones + 1) := by
  obtain ⟨htotalFinite, hexcessFinite, hnonneg, htotal, hexcess, hlow⟩ := h
  obtain ⟨htermFinite, htermNonneg, htermLe⟩ := hterm
  have hfits : ∀ count : ℤ, count.natAbs ≤ 3 * ones + 1 →
      Representable (count * unitsPerOne).natAbs :=
    fun count hcount => representable_ones (by omega)
  -- the term, less what was carried
  obtain ⟨hcorrected, -, hcorrectedLow, hcorrectedHigh⟩ :=
    (rounds_sub htermFinite hexcessFinite).between Nat.one_pos (-sum.total.units)
      ((2 * ones + 1) * unitsPerOne)
      (by rw [Int.natAbs_neg]; exact representable_units _) (hfits _ (by omega))
      (by rw [Nat.cast_one]; omega) (by rw [Nat.cast_one]; linarith)
  -- the new total
  obtain ⟨hnext, hnextUnits, hnextLow, hnextHigh⟩ :=
    (rounds_add htotalFinite hcorrected).between Nat.one_pos (0 * unitsPerOne)
      ((3 * ones + 1) * unitsPerOne) (hfits 0 (by omega)) (hfits _ (by omega))
      (by rw [Nat.cast_one]; omega) (by rw [Nat.cast_one]; linarith)
  rw [zero_mul] at hnextLow
  -- what the addition changed, and what of it was not asked for
  obtain ⟨hchange, hchangeUnits, hchangeLow, hchangeHigh⟩ :=
    (rounds_sub hnext htotalFinite).between Nat.one_pos (-ones * unitsPerOne)
      ((3 * ones + 1) * unitsPerOne) (hfits _ (by omega)) (hfits _ (by omega))
      (by rw [Nat.cast_one]; linarith) (by rw [Nat.cast_one]; linarith)
  have hexcessNext := excess_le_total (onGrid_units _) (onGrid_units _) hnonneg hcorrectedLow
    hnextUnits
  rw [← hchangeUnits] at hexcessNext
  obtain ⟨hcarried, hcarriedUnits, hcarriedLow, -⟩ :=
    (rounds_sub hchange hcorrected).between Nat.one_pos (-(3 * ones + 1) * unitsPerOne)
      (2 * (3 * ones + 1) * unitsPerOne) (hfits _ (by omega))
      (representable_ones (by omega)) (by rw [Nat.cast_one]; linarith)
      (by rw [Nat.cast_one]; linarith)
  rw [← hcarriedUnits] at hexcessNext
  refine ⟨hnext, hcarried, hnextLow, ?_, hexcessNext, ?_⟩
  · push_cast
    exact hnextHigh
  · have hones : (0 : ℤ) ≤ ones * unitsPerOne := by positivity
    have hunit := unitsPerOne_cast_int_pos
    calc -(2 * ((3 * ones + 1 : ℕ) * unitsPerOne) : ℤ)
        ≤ -(3 * ones + 1) * unitsPerOne := by push_cast; linarith
      _ ≤ (sum.add term).excess.units := hcarriedLow

/-- How many ones bound a running sum of so many terms. -/
def reach : ℕ → ℕ
  | 0 => 0
  | count + 1 => 3 * reach count + 1

theorem reach_mono : Monotone reach :=
  monotone_nat_of_le_succ fun count => by rw [reach]; omega

/-- **Any more terms**, as long as no bound goes beyond what doubles can count. -/
theorem Bounded.foldl {count : ℕ} (h : sum.Bounded (reach count))
    (hterms : ∀ term ∈ terms, term.IsPart) (hreach : reach (count + terms.length) ≤ 2 ^ 52) :
    (terms.foldl RunningSum.add sum).Bounded (reach (count + terms.length)) := by
  induction terms generalizing sum count with
  | nil => exact h
  | cons term terms ih =>
    have hlength : count + (term :: terms).length = count + 1 + terms.length := by
      rw [List.length_cons]
      omega
    have hstep : reach (count + 1) ≤ 2 ^ 52 :=
      le_trans (reach_mono (by rw [List.length_cons]; omega)) hreach
    rw [hlength] at hreach ⊢
    exact ih (h.add (hterms term List.mem_cons_self) hstep)
      (fun other hother => hterms other (List.mem_cons_of_mem term hother)) hreach

end RunningSum

/-- A compensated sum of parts of one is not negative. -/
theorem isFinite_compensatedSum {terms : List Double} (hterms : ∀ term ∈ terms, term.IsPart)
    (hreach : RunningSum.reach terms.length ≤ 2 ^ 52) :
    (compensatedSum terms).isFinite = true ∧ 0 ≤ (compensatedSum terms).units ∧
      (compensatedSum terms).units ≤ RunningSum.reach terms.length * unitsPerOne := by
  have hstart : ({ total := 0, excess := 0 } : RunningSum).Bounded (RunningSum.reach 0) := by
    constructor <;> simp [isFinite_zero, units_zero, RunningSum.reach]
  have hbounded := hstart.foldl hterms (by rwa [Nat.zero_add])
  rw [Nat.zero_add] at hbounded
  exact ⟨hbounded.total_finite, hbounded.nonneg, hbounded.total_le⟩

/-! ## Roots -/

/-- Twice the root of `n` units in units, half a unit standing for what its integer part leaves. -/
def doubledRoot (n : ℕ) : ℕ :=
  let square := n * unitsPerOne
  if square.sqrt * square.sqrt = square then 2 * square.sqrt else 2 * square.sqrt + 1

theorem rounds_sqrt {x : Double} (hx : x.isFinite = true) (hpos : 0 < x.units) :
    (sqrt x).Rounds (doubledRoot x.units.natAbs) 2 := by
  obtain ⟨negative, size, rfl⟩ := exists_finite_of_isFinite hx
  rw [units_finite] at hpos ⊢
  cases negative with
  | true =>
    simp only [signed, if_true] at hpos
    omega
  | false =>
    simp only [signed, Bool.false_eq_true, if_false] at hpos
    have hne : size.units ≠ 0 := by omega
    have hroot : sqrt (finite false size) = ofRatio false (doubledRoot size.units) 2 := by
      rw [sqrt, if_neg hne, if_neg Bool.false_ne_true]
      rfl
    rw [hroot, natAbs_signed]
    exact rounds_ofRatio false _ (by decide)

theorem doubledRoot_le {n ones : ℕ} (h : n ≤ ones * unitsPerOne) :
    doubledRoot n ≤ (ones + 1) * unitsPerOne * 2 := by
  have hsquare := Nat.sqrt_le (n * unitsPerOne)
  have hpos := unitsPerOne_pos
  have hroot : (n * unitsPerOne).sqrt < (ones + 1) * unitsPerOne := by
    by_contra hge
    have hlarge := Nat.mul_le_mul (not_lt.mp hge) (not_lt.mp hge)
    have hsmall : n * unitsPerOne ≤ ones * unitsPerOne * unitsPerOne := Nat.mul_le_mul_right _ h
    nlinarith
  unfold doubledRoot
  dsimp only
  split <;> omega

/-- The root of a number that is not negative is not negative. -/
theorem isFinite_sqrt {x : Double} {ones : ℕ} (hx : x.isFinite = true) (hnonneg : 0 ≤ x.units)
    (hle : x.units ≤ ones * unitsPerOne) (hones : ones ≤ 2 ^ 52) :
    (sqrt x).isFinite = true ∧ 0 ≤ (sqrt x).units := by
  rcases Int.lt_or_eq_of_le hnonneg with hpos | hzero
  · have hsize : x.units.natAbs ≤ ones * unitsPerOne := by
      have hcast : (x.units.natAbs : ℤ) = x.units := Int.natAbs_of_nonneg hnonneg
      exact_mod_cast hcast.le.trans hle
    have hbound : (doubledRoot x.units.natAbs : ℤ) ≤ (ones + 1) * unitsPerOne * 2 := by
      exact_mod_cast doubledRoot_le hsize
    obtain ⟨hfinite, -, hlow, -⟩ := (rounds_sqrt hx hpos).between (by decide) (0 * unitsPerOne)
      ((ones + 1) * unitsPerOne) (representable_ones (by decide)) (representable_ones (by omega))
      (by omega) hbound
    rw [zero_mul] at hlow
    exact ⟨hfinite, hlow⟩
  · obtain ⟨negative, size, rfl⟩ := exists_finite_of_isFinite hx
    have hsize : size.units = 0 := by
      rw [units_finite] at hzero
      have := natAbs_signed negative size.units
      omega
    rw [sqrt, if_pos hsize]
    exact ⟨rfl, hnonneg⟩

/-! ## Lengths -/

theorem Rounds.isNonnegative {x : Double} {num : ℤ} {den : ℕ} (h : x.Rounds num den)
    (hden : 0 < den) (hnum : 0 ≤ num) : x.IsNonnegative := by
  cases h with
  | finite hfinite hunits =>
    refine .finite hfinite ?_
    rw [hunits]
    exact roundQuotient_nonneg hden hnum
  | infinite hover =>
    rw [decide_eq_false (not_lt.mpr hnum)]
    exact .infinite

theorem units_max {x y : Double} (hx : x.isFinite = true) (hy : y.isFinite = true) :
    (max x y).isFinite = true ∧ x.units ≤ (max x y).units ∧ y.units ≤ (max x y).units := by
  unfold max
  split
  · rename_i hlt
    exact ⟨hy, le_of_lt ((lt_iff_units_lt hx hy).mp hlt), le_refl _⟩
  · rename_i hge
    exact ⟨hx, le_refl _, not_lt.mp fun hlt => hge ((lt_iff_units_lt hx hy).mpr hlt)⟩

/-- The largest of some finite doubles. -/
theorem le_units_foldl_max {sizes : List Double} (hsizes : ∀ size ∈ sizes, size.isFinite = true)
    {start : Double} (hstart : start.isFinite = true) :
    (sizes.foldl max start).isFinite = true ∧ start.units ≤ (sizes.foldl max start).units ∧
      ∀ size ∈ sizes, size.units ≤ (sizes.foldl max start).units := by
  induction sizes generalizing start with
  | nil => exact ⟨hstart, le_refl _, fun _ h => by cases h⟩
  | cons size sizes ih =>
    obtain ⟨hmax, hle, hle'⟩ := units_max hstart (hsizes size List.mem_cons_self)
    obtain ⟨hfinite, hfirst, hrest⟩ :=
      ih (fun other hother => hsizes other (List.mem_cons_of_mem size hother)) hmax
    refine ⟨hfinite, hle.trans hfirst, fun other hother => ?_⟩
    rcases List.mem_cons.mp hother with rfl | hother
    · exact hle'.trans hfirst
    · exact hrest other hother

theorem isZero_eq_false_iff {x : Double} (h : x.isFinite = true) :
    x.isZero = false ↔ x.units ≠ 0 := by
  obtain ⟨negative, size, rfl⟩ := exists_finite_of_isFinite h
  have hsize := natAbs_signed negative size.units
  rw [← Bool.not_eq_true, isZero_finite, units_finite]
  omega

/-- The share that a component has in the largest. -/
theorem isPart_share {size largest : Double} (hsize : size.isFinite = true)
    (hnonneg : 0 ≤ size.units) (hlargest : largest.isFinite = true) (hpos : 0 < largest.units)
    (hle : size.units ≤ largest.units) : (size / largest).IsPart := by
  have habs : (largest.units.natAbs : ℤ) = largest.units := Int.natAbs_of_nonneg hpos.le
  obtain ⟨hshare, -, hlow, hhigh⟩ :=
    (rounds_div hsize hlargest hpos).between (by omega) (0 * unitsPerOne) (1 * unitsPerOne)
      (representable_ones (by decide)) (representable_ones (by decide))
      (by rw [zero_mul, zero_mul]; positivity) (by rw [habs, one_mul, mul_comm]; gcongr)
  rw [zero_mul] at hlow
  rw [one_mul] at hhigh
  exact ⟨hshare, hlow, hhigh⟩

theorem IsPart.mul_self {share : Double} (h : share.IsPart) : (share * share).IsPart := by
  have hunit := unitsPerOne_cast_int_pos
  have hnonneg := h.nonneg
  have hle := h.le_one
  obtain ⟨hsquare, -, hlow, hhigh⟩ :=
    (rounds_mul h.isFinite h.isFinite).between unitsPerOne_pos (0 * unitsPerOne) (1 * unitsPerOne)
      (representable_ones (by decide)) (representable_ones (by decide))
      (by rw [zero_mul, zero_mul]; positivity) (by rw [one_mul]; gcongr)
  rw [zero_mul] at hlow
  rw [one_mul] at hhigh
  exact ⟨hsquare, hlow, hhigh⟩

theorem units_abs {x : Double} (hx : x.isFinite = true) :
    x.abs.isFinite = true ∧ x.abs.units = |x.units| := by
  obtain ⟨negative, size, rfl⟩ := exists_finite_of_isFinite hx
  refine ⟨rfl, ?_⟩
  rw [units_finite, abs_signed, abs, units_finite]
  rfl

/-- The size of a component that is a number is finite or infinite, and not negative. -/
theorem isFinite_abs {x : Double} (hnan : x ≠ nan) (hinfinite : x.abs.isInfinite = false) :
    x.abs.isFinite = true ∧ x.abs.units = |x.units| := by
  cases x with
  | nan => exact absurd rfl hnan
  | infinite negative => cases hinfinite
  | finite negative size => exact units_abs rfl

/-- The sizes of components that are numbers, where none of them is infinite. -/
theorem isFinite_sizes {components : List Double} (hnan : ∀ x ∈ components, x ≠ nan)
    (hinfinite : (components.map abs).any isInfinite = false) :
    ∀ size ∈ components.map abs, size.isFinite = true ∧ 0 ≤ size.units := by
  intro size hsize
  obtain ⟨x, hx, rfl⟩ := List.mem_map.mp hsize
  have hnot : x.abs.isInfinite = false :=
    Bool.eq_false_iff.mpr (List.any_eq_false.mp hinfinite _ hsize)
  obtain ⟨hfinite, hunits⟩ := isFinite_abs (hnan x hx) hnot
  rw [hunits]
  exact ⟨hfinite, abs_nonneg _⟩

/-- **A length is not negative**, and it is a number where its components are. -/
theorem isNonnegative_length {components : List Double} (hnan : ∀ x ∈ components, x ≠ nan)
    (hreach : RunningSum.reach components.length ≤ 2 ^ 52) :
    (length components).IsNonnegative := by
  unfold length
  dsimp only
  split
  · exact .infinite
  rename_i hinfinite
  rw [Bool.not_eq_true] at hinfinite
  have hsizes := isFinite_sizes hnan hinfinite
  obtain ⟨hlargest, hlow, hle⟩ :=
    le_units_foldl_max (fun size h => (hsizes size h).1) isFinite_zero
  rw [units_zero] at hlow
  split
  · rename_i hcontains
    have hmem := List.contains_iff_mem.mp hcontains
    have hfinite := (hsizes nan hmem).1
    cases hfinite
  generalize (components.map abs).foldl max 0 = largest at hlargest hlow hle ⊢
  split
  · exact .finite isFinite_zero (le_of_eq units_zero.symm)
  rename_i hnonzero
  have hpos : 0 < largest.units :=
    lt_of_le_of_ne hlow ((isZero_eq_false_iff hlargest).mp (Bool.eq_false_iff.mpr hnonzero)).symm
  have hparts : ∀ term ∈ (components.map abs).map fun size => size / largest * (size / largest),
      term.IsPart := by
    intro term hterm
    obtain ⟨size, hsize, rfl⟩ := List.mem_map.mp hterm
    obtain ⟨hfinite, hnonneg⟩ := hsizes size hsize
    exact (isPart_share hfinite hnonneg hlargest hpos (hle size hsize)).mul_self
  obtain ⟨hsum, hsumLow, hsumHigh⟩ := isFinite_compensatedSum hparts (by simpa using hreach)
  obtain ⟨hroot, hrootLow⟩ := isFinite_sqrt hsum hsumLow hsumHigh (by simpa using hreach)
  exact (rounds_mul hroot hlargest).isNonnegative unitsPerOne_pos (mul_nonneg hrootLow hlow)

end Toolpath.Double
