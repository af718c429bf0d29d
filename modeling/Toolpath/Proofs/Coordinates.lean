import Toolpath.Proofs.HalfwayValues

/-! # Rounded coordinates

What `roundCoordinate` makes of a finite double is the double of a whole number of thousandths
(`exists_roundCoordinate_eq`), and no negative zero (`isCoordinate_roundCoordinate`).  The thousandths
are the nearest ones, the even ones in case of a tie, unless the value strays
(`Magnitude.nearestUnits_thousandths`).  Rounding again changes nothing
(`roundCoordinate_roundCoordinate`): a result that is halfway again can only be the value itself,
because a value that strays ends on an even sixteenth.
-/
namespace Toolpath

/-! ## What a coordinate is -/

/-- A finite double that comes from thousandths and is no negative zero. -/
def Double.IsCoordinate : Double → Prop
  | .finite negative size => size.OnSteps coordinatePlaces ∧ (size.units = 0 → negative = false)
  | _ => False

theorem Double.IsCoordinate.isFinite {x : Double} (h : x.IsCoordinate) : x.isFinite = true := by
  cases x with
  | nan => exact h.elim
  | infinite negative => exact h.elim
  | finite negative size => rfl

theorem Double.IsCoordinate.ne_zero_true {x : Double} (h : x.IsCoordinate) : x ≠ zero true := by
  intro hzero
  rw [hzero] at h
  obtain ⟨-, hsign⟩ := h
  cases hsign rfl

theorem Double.isZero_finite {negative : Bool} {size : Magnitude} :
    (finite negative size).isZero = true ↔ size.units = 0 := by
  simp only [isZero, beq_iff_eq]

/-- Any size that comes from thousandths is a coordinate once a zero has lost its sign. -/
theorem Magnitude.OnSteps.isCoordinate {size : Magnitude} (h : size.OnSteps coordinatePlaces)
    (negative : Bool) :
    Double.IsCoordinate
      (if (Double.finite negative size).isZero then 0 else .finite negative size) := by
  split
  · rw [Double.ofNat_zero]
    exact ⟨onSteps_of_zero coordinatePlaces rfl, fun _ => rfl⟩
  · rename_i hzero
    exact ⟨h, fun hunits => absurd (Double.isZero_finite.mpr hunits) hzero⟩

/-! ## The thousandths of a size -/

/-- Without a tie there is nothing to settle. -/
theorem roundDiv_away_eq {num den : ℕ} (h : 2 * (num % den) ≠ den) :
    roundDiv .away num den = roundDiv .toEven num den := by
  unfold roundDiv
  split
  · rfl
  · rw [if_pos (by omega)]
    rw [if_pos (by omega)]

namespace Magnitude
variable {size : Magnitude}

/-- The thousandths that a size is rounded to: the computed ones of a halfway value, and the nearest
ones of any other. -/
def thousandths (size : Magnitude) : ℕ :=
  if size.isHalfway then computedThousandth (size.units / sixteenth)
  else size.steps coordinatePlaces

/-- The thousandths nearest to a size, an even number of them where there are two. -/
def evenThousandths (size : Magnitude) : ℕ :=
  roundDiv .toEven (size.units * 1000) Double.unitsPerOne

/-- A size whose computed thousandths stray. -/
def Strays (size : Magnitude) : Prop :=
  ∃ count, size.units = count * sixteenth ∧ count % 2 = 1 ∧ Toolpath.Strays count

theorem thousandths_of_odd {count : ℕ} (hodd : count % 2 = 1)
    (hcount : size.units = count * sixteenth) : size.thousandths = computedThousandth count := by
  rw [thousandths, if_pos (isHalfway_iff.mpr ⟨count, hodd, hcount⟩), hcount,
    Nat.mul_div_cancel _ sixteenth_pos]

theorem evenThousandths_of_sixteenths {count : ℕ} (hcount : size.units = count * sixteenth) :
    size.evenThousandths = evenThousandth count := by
  have hscaled : size.units * 1000 = 125 * count * (8 * sixteenth) := by
    rw [hcount]
    ring
  have hone : Double.unitsPerOne = 2 * (8 * sixteenth) := by
    rw [unitsPerOne_eq_sixteenths]
    ring
  have hpos := sixteenth_pos
  rw [evenThousandths, evenThousandth, hscaled, hone, roundDiv_mul_mul _ _ _ (by omega)]

/-- A size in the middle between two thousandths is halfway: the product of a size and `125` is an
odd number of sixteenths only where the size is. -/
theorem isHalfway_of_tie
    (h : 2 * (size.units * 1000 % Double.unitsPerOne) = Double.unitsPerOne) :
    size.isHalfway = true := by
  have hsplit := Nat.div_add_mod (size.units * 1000) Double.unitsPerOne
  generalize size.units * 1000 / Double.unitsPerOne = quot at hsplit
  rw [unitsPerOne_eq_sixteenths] at h hsplit
  have hodd : 125 * size.units = (2 * quot + 1) * sixteenth := by
    have height : 8 * (125 * size.units) = 8 * ((2 * quot + 1) * sixteenth) := by
      calc 8 * (125 * size.units) = size.units * 1000 := by ring
        _ = 16 * sixteenth * quot + 8 * sixteenth := by omega
        _ = _ := by ring
    omega
  have hcoprime : Nat.Coprime 125 sixteenth := Nat.Coprime.pow_right _ (by decide)
  obtain ⟨count, hcount⟩ := hcoprime.dvd_of_dvd_mul_right (Dvd.intro _ hodd)
  refine isHalfway_iff.mpr ⟨count, by omega, ?_⟩
  rw [hcount, mul_assoc] at hodd
  exact Nat.eq_of_mul_eq_mul_left (by decide) hodd

/-- **The computed thousandths are as good as the nearest ones**, unless they stray. -/
theorem nearestUnits_thousandths (h : ¬size.Strays) :
    nearestUnits (size.thousandths * Double.unitsPerOne) 1000 =
      nearestUnits (size.evenThousandths * Double.unitsPerOne) 1000 := by
  by_cases hhalf : size.isHalfway = true
  · obtain ⟨count, hodd, hcount⟩ := isHalfway_iff.mp hhalf
    rw [thousandths_of_odd hodd hcount, evenThousandths_of_sixteenths hcount]
    refine nearestUnits_computedThousandth_eq hodd (lt_of_odd hodd hcount) ?_
    exact fun hstrays => h ⟨count, hcount, hodd, hstrays⟩
  · rw [thousandths, if_neg hhalf, steps, show 10 ^ coordinatePlaces = 1000 from rfl,
      roundDiv_away_eq (fun htie => hhalf (isHalfway_of_tie htie)), evenThousandths]

/-- The nearest thousandths are at most half a thousandth off. -/
theorem two_mul_abs_evenThousandths_sub_le (size : Magnitude) :
    2 * |(size.evenThousandths * Double.unitsPerOne : ℤ) - (size.units * 1000 : ℕ)| ≤
      Double.unitsPerOne :=
  two_mul_abs_roundDiv_sub_le .toEven _ unitsPerOne_pos

/-- A size that strays is rounded to the sixteenth next to it. -/
theorem Strays.exists_nearestUnits_eq (h : size.Strays) :
    ∃ count n, size.units = count * sixteenth ∧ Toolpath.Strays count ∧ n % 2 = 0 ∧
      (n = count + 1 ∨ n + 1 = count) ∧
      nearestUnits (size.thousandths * Double.unitsPerOne) 1000 = n * sixteenth := by
  obtain ⟨count, hcount, hodd, hstrays⟩ := h
  obtain ⟨n, heven, hnext, hunits⟩ := exists_nearestUnits_of_strays (lt_of_odd hodd hcount) hstrays
  refine ⟨count, n, hcount, hstrays, heven, hnext, ?_⟩
  rw [thousandths_of_odd hodd hcount, hunits]

/-- The nearest thousandths of a size that strays are turned back into it. -/
theorem Strays.nearestUnits_evenThousandths (h : size.Strays) :
    nearestUnits (size.evenThousandths * Double.unitsPerOne) 1000 = size.units := by
  obtain ⟨count, hcount, hodd, hfar, -⟩ := h
  rw [evenThousandths_of_sixteenths hcount, hcount]
  exact nearestUnits_evenThousandth hodd (lt_of_odd hodd hcount) (by omega)

end Magnitude

/-! ## Rounding -/

/-- Steps of a size that is not huge make a double. -/
theorem exists_ofDecimal_steps_eq (negative : Bool) {size : Magnitude}
    (h : (Double.finite negative size).isHuge = false) :
    ∃ rounded : Magnitude,
      Double.ofDecimal negative ⟨size.steps coordinatePlaces, -coordinatePlaces⟩ =
          .finite negative rounded ∧
        rounded.units =
          nearestUnits (size.steps coordinatePlaces * Double.unitsPerOne)
            (10 ^ coordinatePlaces) := by
  have hunits : size.units < 10 ^ 21 * Double.unitsPerOne := by
    refine Nat.lt_of_not_le fun hle => ?_
    rw [Double.isHuge_finite.mpr hle] at h
    cases h
  have hsteps := two_mul_roundDiv_le .away (size.units * 10 ^ coordinatePlaces) Double.unitsPerOne
  have hthousand : 10 ^ coordinatePlaces = 1000 := rfl
  rw [← Magnitude.steps, hthousand] at hsteps
  have hle : size.steps coordinatePlaces * Double.unitsPerOne ≤
      1 * 2 ^ 71 * Double.unitsPerOne * 10 ^ coordinatePlaces := by
    rw [hthousand]
    omega
  obtain ⟨rounded, hrounded, heq⟩ := Double.exists_ofRatio_eq_finite negative
    (ten_pow_pos coordinatePlaces) (onGrid_mul_two_pow_mul_unitsPerOne 71 (by decide)) hle
    (by rw [Nat.one_mul]; exact two_pow_lt_overflowUnits (by decide))
  exact ⟨rounded, by rw [Double.ofDecimal_steps, heq], hrounded⟩

/-- **What rounding does to a finite double.**  The result is the double nearest to the thousandths
of the value. -/
theorem exists_roundCoordinate_eq (negative : Bool) (size : Magnitude) :
    ∃ rounded : Magnitude,
      roundCoordinate (.finite negative size) =
          (if (Double.finite negative rounded).isZero then 0 else .finite negative rounded) ∧
        rounded.units = nearestUnits (size.thousandths * Double.unitsPerOne) 1000 := by
  by_cases hhalf : size.isHalfway = true
  · obtain ⟨count, hodd, hcount⟩ := Magnitude.isHalfway_iff.mp hhalf
    obtain ⟨rounded, hrounded, hunits⟩ := exists_roundHalfway_eq negative hodd hcount
    refine ⟨rounded, ?_, ?_⟩
    · simp only [roundCoordinate, hhalf, if_true, hrounded]
    · rw [hunits, Magnitude.thousandths_of_odd hodd hcount]
  have hthousandths : size.thousandths = size.steps coordinatePlaces := if_neg hhalf
  rw [hthousandths]
  rw [Bool.not_eq_true] at hhalf
  by_cases hhuge : (Double.finite negative size).isHuge = true
  · have hwide : size.IsWide coordinatePlaces := Magnitude.isWide_of_isHuge hhuge
    refine ⟨size, ?_, (hwide.nearestUnits_steps (by decide)).symm⟩
    simp only [roundCoordinate, hhalf, hhuge, Bool.false_eq_true, if_false, if_true]
  · rw [Bool.not_eq_true] at hhuge
    obtain ⟨rounded, hrounded, hunits⟩ := exists_ofDecimal_steps_eq negative hhuge
    refine ⟨rounded, ?_, hunits⟩
    simp only [roundCoordinate, hhalf, hhuge, Bool.false_eq_true, if_false, hrounded]

/-- A rounded finite double is a coordinate. -/
theorem isCoordinate_roundCoordinate {value : Double} (h : value.isFinite = true) :
    (roundCoordinate value).IsCoordinate := by
  obtain ⟨negative, size, rfl⟩ := Double.exists_finite_of_isFinite h
  obtain ⟨rounded, heq, hunits⟩ := exists_roundCoordinate_eq negative size
  rw [heq]
  have hsteps : rounded.OnSteps coordinatePlaces := ⟨size.thousandths, hunits.symm⟩
  exact hsteps.isCoordinate negative

/-- What comes from thousandths and is not halfway between two is not changed, but for the sign of a
zero. -/
theorem roundCoordinate_of_onSteps (negative : Bool) {size : Magnitude}
    (h : size.OnSteps coordinatePlaces) (hhalf : size.isHalfway = false) :
    roundCoordinate (.finite negative size) =
      if (Double.finite negative size).isZero then 0 else .finite negative size := by
  obtain ⟨rounded, heq, hunits⟩ := exists_roundCoordinate_eq negative size
  have hthousandths : size.thousandths = size.steps coordinatePlaces :=
    if_neg (Bool.eq_false_iff.mp hhalf)
  have hback := h.nearestUnits_steps (by decide) (by decide)
  rw [hthousandths, show 1000 = 10 ^ coordinatePlaces from rfl, hback] at hunits
  rw [heq, Magnitude.ext hunits]

theorem roundCoordinate_zero : roundCoordinate 0 = 0 := by
  rw [Double.ofNat_zero]
  have hsteps : Magnitude.OnSteps coordinatePlaces ⟨0, Nat.dvd_zero _, overflowUnits_pos⟩ :=
    Magnitude.onSteps_of_zero coordinatePlaces rfl
  have hround := roundCoordinate_of_onSteps false hsteps (by decide +kernel)
  rw [if_pos (Double.isZero_finite.mpr rfl), Double.ofNat_zero] at hround
  exact hround

/-- A halfway value that comes from thousandths lies where the doubles are wider apart than
thousandths. -/
theorem Magnitude.OnSteps.isWide_of_isHalfway {size : Magnitude}
    (h : size.OnSteps coordinatePlaces) (hhalf : size.isHalfway = true) :
    size.IsWide coordinatePlaces := by
  obtain ⟨count, hcount⟩ := h
  obtain ⟨half, hsixteenths⟩ : ∃ half, size.units * 16 = (2 * half + 1) * Double.unitsPerOne := by
    obtain ⟨odd, hodd, hsixteenths⟩ := isHalfway_iff.mp hhalf
    refine ⟨odd / 2, ?_⟩
    rw [hsixteenths, unitsPerOne_eq_sixteenths, show 2 * (odd / 2) + 1 = odd by omega]
    ring
  have herror := two_mul_abs_nearestUnits_sub_le (count * Double.unitsPerOne)
    (ten_pow_pos coordinatePlaces)
  rw [hcount] at herror
  refine Nat.lt_of_le_of_ne ?_ (unitsPerOne_ne (by decide) _)
  -- twice the distance is an odd number of ones
  have hodd : 2 * ((size.units * 10 ^ coordinatePlaces : Nat) -
      (count * Double.unitsPerOne : Nat) : ℤ) =
      (2 * (125 * half + 62 - count) + 1) * Double.unitsPerOne := by
    have hthousand : 10 ^ coordinatePlaces = 1000 := rfl
    rw [hthousand]
    zify at hsixteenths
    push_cast
    linarith
  have hone : (Double.unitsPerOne : ℤ) ≤
      |(2 * (125 * half + 62 - count) + 1) * (Double.unitsPerOne : ℤ)| := by
    rw [abs_mul, Nat.abs_cast]
    refine le_mul_of_one_le_left (Int.natCast_nonneg _) (Int.one_le_abs ?_)
    omega
  rw [← hodd, abs_mul, abs_two] at hone
  push_cast at hone herror
  zify
  exact le_trans hone herror

/-- A halfway value is no whole number. -/
theorem Magnitude.not_dvd_of_isHalfway {size : Magnitude} (h : size.isHalfway = true) :
    ¬Double.unitsPerOne ∣ size.units := by
  obtain ⟨count, hodd, hcount⟩ := isHalfway_iff.mp h
  intro hdvd
  rw [hcount, unitsPerOne_eq_sixteenths] at hdvd
  have heven := Nat.dvd_of_mul_dvd_mul_right sixteenth_pos hdvd
  omega

/-- A value whose nearest thousandths are turned into a halfway value is that value. -/
theorem Magnitude.eq_of_isHalfway_of_nearest {size rounded : Magnitude}
    (hhalf : rounded.isHalfway = true) (hsteps : rounded.OnSteps coordinatePlaces)
    (h : rounded.units = nearestUnits (size.evenThousandths * Double.unitsPerOne) 1000) :
    size = rounded := by
  have hsize := size.two_mul_abs_evenThousandths_sub_le
  have hnearest := nearestUnits_nearest (size.evenThousandths * Double.unitsPerOne)
    (by decide : 0 < 1000) size.onGrid
  have htriangle := abs_sub_le (size.units * 1000 : ℤ)
    (size.evenThousandths * Double.unitsPerOne) (rounded.units * 1000)
  rw [abs_sub_comm] at hsize
  rw [← h] at hnearest
  push_cast at hsize hnearest
  rw [abs_sub_comm (size.evenThousandths * Double.unitsPerOne : ℤ)] at htriangle
  -- where the doubles are that wide apart, no other one is as near
  have hwide := hsteps.isWide_of_isHalfway hhalf
  refine Magnitude.ext
    (hwide.eq_of_near (by decide) size.onGrid (not_dvd_of_isHalfway hhalf) ?_)
  rw [show (10 ^ coordinatePlaces : ℤ) = 1000 from rfl]
  omega

/-- **Rounding twice is rounding once.** -/
theorem roundCoordinate_roundCoordinate (value : Double) :
    roundCoordinate (roundCoordinate value) = roundCoordinate value := by
  cases value with
  | nan => rfl
  | infinite negative => rfl
  | finite negative size =>
    obtain ⟨rounded, heq, hunits⟩ := exists_roundCoordinate_eq negative size
    have hsteps : rounded.OnSteps coordinatePlaces := ⟨size.thousandths, hunits.symm⟩
    rw [heq]
    by_cases hzero : (Double.finite negative rounded).isZero = true
    · rw [if_pos hzero]
      exact roundCoordinate_zero
    rw [if_neg hzero]
    rw [if_neg hzero] at heq
    by_cases hhalf : rounded.isHalfway = true
    · -- the result is halfway again only where it is the value itself
      by_cases hstrays : size.Strays
      · obtain ⟨_, n, -, -, heven, -, hn⟩ := hstrays.exists_nearestUnits_eq
        obtain ⟨odd, hodd, hcount⟩ := Magnitude.isHalfway_iff.mp hhalf
        rw [hunits, hn] at hcount
        have hsame := Nat.eq_of_mul_eq_mul_right sixteenth_pos hcount
        omega
      · rw [Magnitude.nearestUnits_thousandths hstrays] at hunits
        rw [Magnitude.eq_of_isHalfway_of_nearest hhalf hsteps hunits] at heq
        exact heq
    · rw [roundCoordinate_of_onSteps negative hsteps (Bool.eq_false_iff.mpr hhalf), if_neg hzero]

end Toolpath
