import Toolpath.Proofs.ReadBack

/-! # Whole numbers

A whole number below `2 ^ 53` is written with its decimal digits (`Double.shortestText_ofNat`).  A
decimal that is whole reads back to no number but its own value, so the search for the shortest one
ends with the number itself, some zeros at its end left to the power of ten; and those zeros are
written behind the other digits again.
-/
namespace Toolpath

/-- A power of ten puts zeros behind the digits of a natural. -/
theorem toDigits_mul_ten_pow {n : Nat} (h : 0 < n) (count : Nat) :
    Nat.toDigits 10 (n * 10 ^ count) = Nat.toDigits 10 n ++ List.replicate count '0' := by
  induction count with
  | zero => rw [Nat.pow_zero, Nat.mul_one, List.replicate_zero, List.append_nil]
  | succ count ih =>
    have hpos : 0 < n * 10 ^ count := Nat.mul_pos h (ten_pow_pos count)
    have hlast := Nat.toDigits_append_toDigits (b := 10) (d := 0) (by decide) hpos (by decide)
    rw [Nat.pow_succ, ← Nat.mul_assoc, Nat.mul_comm _ 10, ← Nat.add_zero (10 * _), ← hlast, ih,
      List.append_assoc, List.replicate_succ']
    rfl

namespace Decimal

/-- A decimal for a natural: zeros at its end may have gone over to the power of ten. -/
structure Writes (d : Decimal) (n : Nat) : Prop where
  whole : 0 ≤ d.exponent
  value : d.coefficient * 10 ^ d.exponent.toNat = n

variable {d : Decimal} {n : Nat}

theorem Writes.stripZeros (h : d.Writes n) : d.stripZeros.Writes n := by
  fun_induction Decimal.stripZeros d with
  | case1 d hzero ih =>
    obtain ⟨hwhole, hvalue⟩ := h
    have hexponent : (d.exponent + 1).toNat = d.exponent.toNat + 1 := by omega
    refine ih ⟨Int.add_nonneg hwhole (by decide), ?_⟩
    rw [hexponent, Nat.pow_succ', ← Nat.mul_assoc,
      Nat.div_mul_cancel (Nat.dvd_of_mod_eq_zero hzero.2), hvalue]
  | case2 d _ => exact h

/-- A natural of at most 21 digits is written without a point and without a power of ten. -/
theorem Writes.toChars (h : d.Writes n) (hpos : 0 < n) (hn : n < 10 ^ 21) :
    d.toChars = Nat.toDigits 10 n := by
  obtain ⟨hwhole, hvalue⟩ := h
  have hcoefficient : 0 < d.coefficient := by
    refine Nat.pos_of_ne_zero fun hzero => ?_
    rw [hzero, Nat.zero_mul] at hvalue
    omega
  have hdigits : Nat.toDigits 10 n =
      Nat.toDigits 10 d.coefficient ++ List.replicate d.exponent.toNat '0' := by
    rw [← hvalue, toDigits_mul_ten_pow hcoefficient]
  have hlength : (Nat.toDigits 10 d.coefficient).length + d.exponent.toNat ≤ 21 := by
    have hle : (Nat.toDigits 10 n).length ≤ 21 :=
      (Nat.length_toDigits_le_iff (by decide) (by decide)).mpr hn
    rwa [hdigits, List.length_append, List.length_replicate] at hle
  have hsome : 0 < (Nat.toDigits 10 d.coefficient).length := Nat.length_toDigits_pos
  have hwidest : widestPosition = 21 := rfl
  unfold Decimal.toChars
  dsimp only
  rw [if_pos (by omega), if_pos (by omega), hdigits]
  congr 2
  omega

end Decimal

/-- The first result of a search is found no later than any result. -/
theorem exists_findSome?_range {α : Type} {f : Nat → Option α} {k limit : Nat} (hlt : k < limit)
    (h : (f k).isSome = true) :
    ∃ i ≤ k, ∃ x, f i = some x ∧ (List.range limit).findSome? f = some x := by
  obtain ⟨more, rfl⟩ := Nat.exists_eq_add_of_lt hlt
  have hfront : ((List.range (k + 1)).findSome? f).isSome = true :=
    List.findSome?_isSome_iff.mpr ⟨k, List.mem_range.mpr (Nat.lt_succ_self k), h⟩
  obtain ⟨x, hx⟩ := Option.isSome_iff_exists.mp hfront
  obtain ⟨i, hi, hfound⟩ := List.exists_of_findSome?_eq_some hx
  refine ⟨i, Nat.le_of_lt_succ (List.mem_range.mp hi), x, hfound, ?_⟩
  rw [Nat.add_right_comm, List.range_add, List.findSome?_append, hx, Option.some_or]

namespace Magnitude
variable {size : Magnitude} {n : Nat}

/-- Whole decimals read back to their own value only: the whole numbers around it are doubles. -/
theorem writes_of_readsBack (hsize : size.units = n * Double.unitsPerOne) (hn : n < 2 ^ 53)
    {d : Decimal} (hwhole : 0 ≤ d.exponent) (h : size.readsBack d = true) : d.Writes n := by
  have hdenominator : d.denominator = 1 := by
    rw [Decimal.denominator, show (-d.exponent).toNat = 0 by omega, Nat.pow_zero]
  rw [readsBack, decide_eq_true_iff, Double.ofDecimal_eq_ofRatio, hdenominator] at h
  have hunits := Double.units_eq_of_ofRatio h
  rw [hsize] at hunits
  refine ⟨hwhole, ?_⟩
  have hvalue : d.coefficient * 10 ^ d.exponent.toNat = d.numerator := rfl
  rw [hvalue]
  by_contra hne
  rcases Nat.lt_or_gt_of_ne hne with hlt | hgt
  · obtain ⟨below, rfl⟩ : ∃ below, n = below + 1 := ⟨n - 1, by omega⟩
    have hle : nearestUnits (d.numerator * Double.unitsPerOne) 1 ≤ below * Double.unitsPerOne := by
      refine nearestUnits_le Nat.one_pos (onGrid_mul_unitsPerOne (by omega)) ?_
      rw [Nat.mul_one]
      exact Nat.mul_le_mul_right _ (Nat.le_of_lt_succ hlt)
    rw [← hunits] at hle
    exact absurd (Nat.le_of_mul_le_mul_right hle unitsPerOne_pos) (Nat.not_succ_le_self below)
  · have hle : (n + 1) * Double.unitsPerOne ≤
        nearestUnits (d.numerator * Double.unitsPerOne) 1 := by
      refine le_nearestUnits Nat.one_pos (onGrid_mul_unitsPerOne hn) ?_
      rw [Nat.mul_one]
      exact Nat.mul_le_mul_right _ hgt
    rw [← hunits] at hle
    exact absurd (Nat.le_of_mul_le_mul_right hle unitsPerOne_pos) (Nat.not_succ_le_self n)

theorem readsBack_self (hsize : size.units = n * Double.unitsPerOne) :
    size.readsBack ⟨n, 0⟩ = true := by
  have hvalue : (Decimal.mk n 0).numerator * Double.unitsPerOne =
      size.units * (Decimal.mk n 0).denominator := by
    simp [Decimal.numerator, Decimal.denominator, hsize]
  rw [readsBack, decide_eq_true_iff, Double.ofDecimal_eq_ofRatio, hvalue]
  exact Double.ofRatio_mul false size (Decimal.denominator_pos _)

theorem exponent_of_mem_neighbours {exponent : Int} {d : Decimal}
    (h : d ∈ size.neighbours exponent) : d.exponent = exponent := by
  rcases List.mem_cons.mp h with rfl | h
  · rfl
  · rw [List.mem_singleton.mp h]

/-- Where no step is left to round, the nearer neighbour of a natural is the natural. -/
theorem mem_neighbours_zero (hsize : size.units = n * Double.unitsPerOne) :
    ⟨n, 0⟩ ∈ size.neighbours 0 := by
  have hnear : roundDiv .toEven (size.units * 10 ^ (-0 : Int).toNat)
      (Double.unitsPerOne * 10 ^ (0 : Int).toNat) = n := by
    rw [Int.neg_zero, Int.toNat_zero, Nat.pow_zero, Nat.mul_one, Nat.mul_one, hsize]
    exact roundDiv_mul_self .toEven n unitsPerOne_pos
  exact List.mem_cons.mpr (.inl (congrArg (Decimal.mk · 0) hnear.symm))

/-- A natural has its point behind its last digit. -/
theorem pointPosition_eq (hsize : size.units = n * Double.unitsPerOne) (hpos : 0 < n) :
    size.pointPosition = digitCount n := by
  rw [pointPosition, hsize, if_pos (Nat.le_mul_of_pos_left _ hpos),
    Nat.mul_div_cancel _ unitsPerOne_pos]

/-- The search ends with the number itself. -/
theorem writes_reading (hsize : size.units = n * Double.unitsPerOne) (hpos : 0 < n)
    (hn : n < 2 ^ 53) : size.reading.Writes n := by
  have hposition := pointPosition_eq hsize hpos
  have hcount : digitCount n ≤ 16 :=
    digitCount_le_iff.mpr (Nat.lt_of_lt_of_le hn (by decide))
  have hsome : 0 < digitCount n := by
    rw [digitCount_of_pos hpos]
    exact Nat.succ_pos _
  -- with as many digits as the number has, the number itself is tried
  have hself : ((size.neighbours (size.pointPosition -
      (digitCount n - 1 + 1 : Nat))).find? size.readsBack).isSome = true := by
    have hexponent : size.pointPosition - (digitCount n - 1 + 1 : Nat) = 0 := by omega
    rw [hexponent, List.find?_isSome]
    exact ⟨_, mem_neighbours_zero hsize, readsBack_self hsize⟩
  obtain ⟨i, hi, d, hfound, hsearch⟩ := exists_findSome?_range
    (f := fun digits => (size.neighbours (size.pointPosition - (digits + 1 : Nat))).find?
      size.readsBack) (show digitCount n - 1 < 17 by omega) hself
  have hreading : size.reading = d := by
    rw [reading, firstReadingBack?, hsearch, Option.getD_some]
  have hexponent := exponent_of_mem_neighbours (List.mem_of_find?_eq_some hfound)
  rw [hreading]
  exact writes_of_readsBack hsize hn (by omega) (List.find?_some hfound)

end Magnitude

/-- **A whole number is written with its digits.** -/
theorem Double.shortestText_ofNat {n : Nat} (h : n < 2 ^ 53) :
    (ofNat n).shortestText = toString n := by
  rcases Nat.eq_zero_or_pos n with rfl | hpos
  · have hzero : ofNat 0 = zero false := ofNat_zero
    rw [hzero, shortestText, shortestChars_zero]
    rfl
  · obtain ⟨size, hsize, heq⟩ := exists_ofNat_eq (Nat.le_of_lt h)
    have hwrites := (Magnitude.writes_reading hsize hpos h).stripZeros
    have hchars : size.reading.stripZeros.toChars = Nat.toDigits 10 n :=
      hwrites.toChars hpos (Nat.lt_trans h (by decide))
    rw [heq, shortestText, shortestChars, signChars_finite fun _ => rfl, Magnitude.shortest,
      hchars, Nat.toString_eq_ofList_toDigits]
    rfl

end Toolpath
