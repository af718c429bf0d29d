import Toolpath.Point
import Toolpath.Proofs.NearestIntegers
import Mathlib.Data.Nat.Prime.Basic
import Mathlib.Tactic.IntervalCases

/-! # Halfway values

A value halfway between two thousandths is an odd number of sixteenths (`Magnitude.isHalfway_iff`).
Its rounding is computed: the value is multiplied by a thousand, which may be inexact, the even one of
the integers next to the product is taken, and that is divided by a thousand again
(`exists_roundHalfway_eq`).  Up to `2 ^ 54` thousandths the even one itself is found
(`computedThousandth_eq`).  Beyond, the product has lost digits, but the doubles lie so far apart that
a thousandth is turned into the sixteenth it lies close to, mostly the value.  `Strays` says for which
numbers of sixteenths it is another: the product is off by as much as it can be
(`nearestUnits_computedThousandth_eq`, `exists_nearestUnits_of_strays`).
-/
namespace Toolpath

/-! ## Doubles below overflow -/

/-- A quotient below some number on the grid is finite. -/
theorem Double.exists_ofRatio_eq_finite (negative : Bool) {num den bound : Nat} (hden : 0 < den)
    (hgrid : OnGrid bound) (hle : num ≤ bound * den) (hbound : bound < overflowUnits) :
    ∃ size : Magnitude, size.units = nearestUnits num den ∧
      ofRatio negative num den = finite negative size :=
  ⟨_, rfl, ofRatio_of_lt negative (Nat.lt_of_le_of_lt (nearestUnits_le hden hgrid hle) hbound)⟩

/-- Small naturals are doubles. -/
theorem Double.exists_ofNat_eq {n : Nat} (h : n ≤ 2 ^ 53) :
    ∃ size : Magnitude, size.units = n * unitsPerOne ∧ ofNat n = finite false size := by
  have hlt : n * unitsPerOne < overflowUnits :=
    Nat.lt_of_le_of_lt (Nat.mul_le_mul_right _ h) (two_pow_lt_overflowUnits (by decide))
  obtain ⟨size, hsize, heq⟩ := exists_ofRatio_eq_finite false (Nat.one_pos)
    (onGrid_mul_unitsPerOne h) (Nat.le_of_eq (Nat.mul_one _).symm) hlt
  exact ⟨size, hsize.trans (onGrid_mul_unitsPerOne h).nearestUnits_one, heq⟩

theorem Double.ofNat_zero : (0 : Double) = zero false := by
  change ofRatio false (0 * unitsPerOne) 1 = zero false
  rw [Nat.zero_mul]
  exact ofRatio_zero false Nat.one_pos

theorem Double.isFinite_zero : (0 : Double).isFinite = true := by
  rw [ofNat_zero]
  rfl

theorem Double.units_zero : (0 : Double).units = 0 := by
  rw [ofNat_zero]
  rfl

theorem exists_coordinateScale_eq :
    ∃ scale : Magnitude, scale.units = 1000 * Double.unitsPerOne ∧
      coordinateScale = .finite false scale := by
  obtain ⟨scale, hunits, heq⟩ := Double.exists_ofNat_eq (n := 1000) (by decide)
  exact ⟨scale, hunits, heq⟩

/-! ## Rounding to 53 digits -/

/-- Doubling does not disturb rounding. -/
theorem nearestUnits_mul_two_pow (n k : ℕ) :
    nearestUnits (n * 2 ^ k) 1 = nearestUnits n 1 * 2 ^ k := by
  by_cases hsmall : n ≤ 2 ^ 53
  · -- neither is rounded
    rw [(onGrid_mul_two_pow k hsmall).nearestUnits_one, (onGrid_of_le hsmall).nearestUnits_one]
  · have hne : n ≠ 0 := by omega
    have hlog : 53 ≤ n.log2 := (Nat.le_log2 hne).mpr (by omega)
    have hspacing : spacing (n * 2 ^ k) = spacing n * 2 ^ k := by
      have hmul : (n * 2 ^ k).log2 = n.log2 + k := by
        rw [Nat.log2_eq_iff (Nat.mul_ne_zero hne (Nat.two_pow_pos k).ne'), Nat.pow_add,
          Nat.add_right_comm, Nat.pow_add]
        exact ⟨Nat.mul_le_mul_right _ (Nat.log2_self_le hne),
          Nat.mul_lt_mul_of_pos_right Nat.lt_log2_self (Nat.two_pow_pos k)⟩
      rw [spacing, spacing, hmul, ← Nat.pow_add]
      congr 1
      omega
    rw [nearestUnits, nearestUnits, Nat.div_one, Nat.div_one, Nat.one_mul, Nat.one_mul, hspacing,
      roundDiv_mul_mul _ _ _ (Nat.two_pow_pos k), Nat.mul_assoc]

/-- A natural of 54 to 60 digits is rounded to a multiple of a power of two. -/
theorem nearestUnits_of_log2 {n k : ℕ} (h : n.log2 = 52 + k) :
    nearestUnits n 1 = roundDiv .toEven n (2 ^ k) * 2 ^ k := by
  rw [nearestUnits, Nat.div_one, Nat.one_mul, spacing, h, Nat.add_sub_cancel_left]

/-- What less than half a spacing away from a number on the grid is rounded to that number. -/
theorem nearestUnits_eq_of_near {num den n : ℕ} (hden : 0 < den) (hn : OnGrid n)
    (hne : n ≠ 2 ^ n.log2) (h : 2 * |(n * den : ℤ) - num| < den * spacing n) :
    nearestUnits num den = n := by
  have hnear := nearestUnits_nearest num hden hn
  have htriangle := abs_sub_le (nearestUnits num den * den : ℤ) num (n * den)
  rw [abs_sub_comm (num : ℤ)] at htriangle
  have hdiff : |((nearestUnits num den : ℤ) - n) * den| < spacing n * den := by
    rw [sub_mul, mul_comm (spacing n : ℤ)]
    omega
  rw [abs_mul, Nat.abs_cast] at hdiff
  have hlt : |(nearestUnits num den : ℤ) - n| < spacing n :=
    lt_of_mul_lt_mul_right hdiff (Int.natCast_nonneg den)
  obtain ⟨hlow, hhigh⟩ := abs_lt.mp hlt
  exact (onGrid_nearestUnits num den).eq_of_near hn hne (by omega) (by omega)

/-! ## Odd numbers of sixteenths -/

/-- The number of units in a sixteenth. -/
def sixteenth : ℕ := 2 ^ (Double.unitPlaces - 4)

theorem sixteenth_pos : 0 < sixteenth := Nat.two_pow_pos _

theorem unitsPerOne_eq_sixteenths : Double.unitsPerOne = 16 * sixteenth := by
  have hplaces := unitPlaces_eq
  rw [unitsPerOne_eq, sixteenth, show (16 : ℕ) = 2 ^ 4 from rfl, ← Nat.pow_add]
  congr 1
  omega

theorem onGrid_mul_sixteenth {n : ℕ} (h : n ≤ 2 ^ 53) : OnGrid (n * sixteenth) :=
  onGrid_mul_two_pow _ h

/-- A size is halfway exactly where it is an odd number of sixteenths. -/
theorem Magnitude.isHalfway_iff {size : Magnitude} :
    size.isHalfway = true ↔ ∃ count, count % 2 = 1 ∧ size.units = count * sixteenth := by
  have hpos := sixteenth_pos
  have hscaled : size.units * 2 ^ (coordinatePlaces + 1) % (2 * Double.unitsPerOne) =
      size.units % (2 * sixteenth) * 16 := by
    rw [unitsPerOne_eq_sixteenths, ← Nat.mul_mod_mul_right]
    congr 1
    ring
  rw [isHalfway, beq_iff_eq, hscaled, unitsPerOne_eq_sixteenths]
  constructor
  · intro h
    have hsplit := Nat.div_add_mod size.units (2 * sixteenth)
    refine ⟨2 * (size.units / (2 * sixteenth)) + 1, by omega, ?_⟩
    calc size.units = 2 * sixteenth * (size.units / (2 * sixteenth)) + sixteenth := by omega
      _ = _ := by ring
  · rintro ⟨count, hodd, hcount⟩
    have hsplit : size.units = sixteenth + 2 * sixteenth * (count / 2) := by
      calc size.units = (2 * (count / 2) + 1) * sixteenth := by
            rw [hcount]
            congr 1
            omega
        _ = _ := by ring
    rw [hsplit, Nat.add_mul_mod_self_left, Nat.mod_eq_of_lt (by omega)]
    omega

/-- From `2 ^ 49` on there are no odd sixteenths. -/
theorem Magnitude.lt_of_odd {size : Magnitude} {count : ℕ} (hodd : count % 2 = 1)
    (hcount : size.units = count * sixteenth) : count < 2 ^ 53 := by
  by_contra hge
  have hpow : 2 ^ (53 + (Double.unitPlaces - 4)) ≤ size.units := by
    rw [hcount, sixteenth, Nat.pow_add]
    exact Nat.mul_le_mul_right _ (not_lt.mp hge)
  have hlog := log2_mono hpow
  rw [Nat.log2_two_pow] at hlog
  have hdvd : 2 * sixteenth ∣ count * sixteenth := by
    rw [← hcount, sixteenth, ← Nat.pow_succ']
    exact Nat.dvd_trans (Nat.pow_dvd_pow 2 (by omega)) size.onGrid
  have heven := Nat.dvd_of_mul_dvd_mul_right sixteenth_pos hdvd
  omega

/-! ## The thousandths that are computed

An odd number of sixteenths times a thousand is an odd number of halves, `125` times as many.  That
product is rounded to 53 digits before the even thousandth is looked for. -/

/-- Half of an odd number is a tie, and goes to the even neighbour. -/
theorem roundDiv_two {n : ℕ} (hodd : n % 2 = 1) : roundDiv .toEven n 2 = n / 2 + n / 2 % 2 := by
  unfold roundDiv
  rw [if_neg (by omega), if_neg (by omega)]

theorem abs_two_mul_roundDiv_two_sub {n : ℕ} (hodd : n % 2 = 1) :
    |(2 * roundDiv .toEven n 2 - n : ℤ)| = 1 := by
  obtain ⟨half, rfl⟩ : ∃ half, n = 2 * half + 1 := ⟨n / 2, by omega⟩
  rw [roundDiv_two hodd, show (2 * half + 1) / 2 = half by omega, abs_eq (by decide)]
  omega

/-- A quarter of an odd number is no tie, and lies on the side of its even half. -/
theorem roundDiv_four {n : ℕ} (hodd : n % 2 = 1) :
    roundDiv .toEven n 4 * 2 = roundDiv .toEven n 2 := by
  rw [roundDiv_two hodd]
  have hhalf : n / 2 = 2 * (n / 4) + n % 4 / 2 := by omega
  have hrest : n % 4 = 1 ∨ n % 4 = 3 := by omega
  unfold roundDiv
  rcases hrest with hrest | hrest
  · rw [hrest] at hhalf ⊢
    rw [if_pos (by decide)]
    omega
  · rw [hrest] at hhalf ⊢
    rw [if_neg (by decide), if_pos (by decide)]
    omega

/-- The even thousandth next to an odd number of sixteenths. -/
def evenThousandth (count : ℕ) : ℕ := roundDiv .toEven (125 * count) 2

/-- The thousandth that is computed for an odd number of sixteenths. -/
def computedThousandth (count : ℕ) : ℕ := roundDiv .toEven (nearestUnits (125 * count) 1) 2

theorem log2_le_of_lt {n : ℕ} (h : n < 2 ^ 60) : n.log2 ≤ 59 := by
  by_cases hn : n = 0
  · rw [hn, Nat.log2_zero]
    exact Nat.zero_le _
  · have := (Nat.log2_lt hn).mpr h
    omega

/-- An odd product is kept, or it becomes a multiple of four. -/
theorem nearestUnits_odd_cases {n : ℕ} (hodd : n % 2 = 1) (hlt : n < 2 ^ 60) :
    nearestUnits n 1 = n ∧ n < 2 ^ 53 ∨ nearestUnits n 1 % 4 = 0 := by
  by_cases hsmall : n < 2 ^ 53
  · exact .inl ⟨(onGrid_of_le (Nat.le_of_lt hsmall)).nearestUnits_one, hsmall⟩
  · right
    have hle := log2_le_of_lt hlt
    have hge : 53 ≤ n.log2 := (Nat.le_log2 (by omega)).mpr (by omega)
    obtain ⟨k, hk⟩ : ∃ k, n.log2 = 52 + k := ⟨n.log2 - 52, by omega⟩
    rw [nearestUnits_of_log2 hk]
    by_cases hone : k = 1
    · subst hone
      rw [Nat.pow_one, roundDiv_two hodd]
      omega
    · obtain ⟨i, rfl⟩ : ∃ i, k = 2 + i := ⟨k - 2, by omega⟩
      rw [Nat.pow_add, mul_comm (2 ^ 2), ← mul_assoc]
      exact Nat.mul_mod_left _ 4

theorem computedThousandth_bounds {count : ℕ} (hpos : 0 < count) (hlt : count < 2 ^ 53) :
    0 < computedThousandth count ∧ computedThousandth count ≤ 2 ^ 60 := by
  have hlow : 125 ≤ nearestUnits (125 * count) 1 :=
    le_nearestUnits Nat.one_pos (onGrid_of_le (by decide)) (by omega)
  have hhigh : nearestUnits (125 * count) 1 ≤ 2 ^ 60 :=
    nearestUnits_le Nat.one_pos (onGrid_two_pow 60) (by omega)
  have hbelow := div_le_roundDiv .toEven (nearestUnits (125 * count) 1) 2
  have habove := roundDiv_le_div_add_one .toEven (nearestUnits (125 * count) 1) 2
  rw [← computedThousandth] at hbelow habove
  omega

/-- The computed thousandth of a long product. -/
theorem computedThousandth_of_log2 {count k : ℕ} (h : (125 * count).log2 = 52 + (k + 1)) :
    computedThousandth count = roundDiv .toEven (125 * count) (2 ^ (k + 1)) * 2 ^ k := by
  rw [computedThousandth, nearestUnits_of_log2 h, Nat.pow_succ, ← Nat.mul_assoc,
    roundDiv_mul_self _ _ (by decide)]

/-- Up to `2 ^ 55` halves the computed thousandth is the even one. -/
theorem computedThousandth_eq {count : ℕ} (hodd : count % 2 = 1) (hlt : 125 * count < 2 ^ 55) :
    computedThousandth count = evenThousandth count := by
  by_cases hsmall : 125 * count < 2 ^ 53
  · rw [computedThousandth, (onGrid_of_le (Nat.le_of_lt hsmall)).nearestUnits_one, evenThousandth]
  have hne : 125 * count ≠ 0 := by omega
  by_cases hmiddle : 125 * count < 2 ^ 54
  · have hlog : (125 * count).log2 = 52 + (0 + 1) := (Nat.log2_eq_iff hne).mpr (by omega)
    rw [computedThousandth_of_log2 hlog, evenThousandth, Nat.pow_zero, Nat.mul_one, Nat.zero_add,
      Nat.pow_one]
  · have hlog : (125 * count).log2 = 52 + (1 + 1) := (Nat.log2_eq_iff hne).mpr (by omega)
    rw [computedThousandth_of_log2 hlog, evenThousandth, Nat.pow_one]
    exact roundDiv_four (by omega)

/-! ## The doubles that thousandths are turned into

From `2 ^ 55` halves on, the doubles lie so much further apart than thousandths that the even
thousandth is turned back into the value it came from.  So is the computed one, except where it is
`63` halves off: then the next sixteenth lies nearer to it. -/

/-- A power of two is not the product of a sixteenth and a number with an odd divisor. -/
theorem mul_sixteenth_ne_two_pow {n : ℕ} (hlarge : 128 ≤ n) (hmod : n % 128 ≠ 0) :
    n * sixteenth ≠ 2 ^ (n * sixteenth).log2 := by
  intro heq
  have hdvd : n ∣ 2 ^ (n * sixteenth).log2 := by
    rw [← heq]
    exact Nat.dvd_mul_right _ _
  obtain ⟨i, -, rfl⟩ := (Nat.dvd_prime_pow Nat.prime_two).mp hdvd
  have hi : 7 ≤ i := by
    by_contra hlt
    have hpow : 2 ^ i < 2 ^ 7 := Nat.pow_lt_pow_right (by decide) (not_le.mp hlt)
    omega
  exact hmod (Nat.mod_eq_zero_of_dvd (Nat.pow_dvd_pow 2 hi))

/-- Thousandths are turned into the sixteenths they lie close to. -/
theorem nearestUnits_eq_sixteenths {n thousandth c : ℕ} (hlarge : 128 ≤ n) (hmod : n % 128 ≠ 0)
    (hle : n ≤ 2 ^ 53) (hspacing : sixteenth ≤ spacing (n * sixteenth) * c)
    (hnear : |(2 * thousandth - 125 * n : ℤ)| * (2 * c) < 125) :
    nearestUnits (thousandth * Double.unitsPerOne) 1000 = n * sixteenth := by
  refine nearestUnits_eq_of_near (by decide) (onGrid_mul_sixteenth hle)
    (mul_sixteenth_ne_two_pow hlarge hmod) ?_
  have hdist : ((n * sixteenth : ℕ) * (1000 : ℕ) : ℤ) - (thousandth * Double.unitsPerOne : ℕ) =
      -(8 * sixteenth * (2 * thousandth - 125 * n)) := by
    rw [unitsPerOne_eq_sixteenths]
    push_cast
    ring
  rw [hdist, abs_neg, abs_mul, abs_of_nonneg (by positivity)]
  zify at hspacing
  have hpos : (0 : ℤ) < spacing (n * sixteenth) := by exact_mod_cast spacing_pos _
  have hoff := abs_nonneg (2 * thousandth - 125 * n : ℤ)
  generalize |(2 * thousandth - 125 * n : ℤ)| = off at hnear hoff
  push_cast
  calc 2 * (8 * (sixteenth : ℤ) * off)
    _ = sixteenth * (16 * off) := by ring
    _ ≤ spacing (n * sixteenth) * c * (16 * off) :=
        mul_le_mul_of_nonneg_right hspacing (by positivity)
    _ = spacing (n * sixteenth) * (8 * (off * (2 * c))) := by ring
    _ < spacing (n * sixteenth) * 1000 := mul_lt_mul_of_pos_left (by omega) hpos
    _ = 1000 * spacing (n * sixteenth) := mul_comm _ _

/-- From `2 ^ (52 - j)` sixteenths on the doubles lie at least `2 ^ -j` sixteenths apart. -/
theorem sixteenth_le_spacing_mul {n j : ℕ} (hj : j ≤ 52) (h : 2 ^ (52 - j) ≤ n) :
    sixteenth ≤ spacing (n * sixteenth) * 2 ^ j := by
  have hplaces := unitPlaces_eq
  have hpow : 2 ^ (52 + (Double.unitPlaces - 4 - j)) ≤ n * sixteenth := by
    rw [show 52 + (Double.unitPlaces - 4 - j) = 52 - j + (Double.unitPlaces - 4) by omega,
      Nat.pow_add]
    exact Nat.mul_le_mul_right _ h
  calc sixteenth = 2 ^ (Double.unitPlaces - 4 - j) * 2 ^ j := by
        rw [sixteenth, ← Nat.pow_add]
        congr 1
        omega
    _ ≤ _ := Nat.mul_le_mul_right _ (two_pow_le_spacing hpow)

/-- The numbers of sixteenths whose computed thousandth strays: from `2 ^ 58` thousandths on, those
whose product with a thousand lies half a thousandth before the middle between two doubles. -/
def Strays (count : ℕ) : Prop := 2 ^ 62 ≤ 1000 * count ∧ (count % 128 = 21 ∨ count % 128 = 107)

theorem exists_log2_eq {count : ℕ} (hlt : count < 2 ^ 53) (hfar : 2 ^ 55 ≤ 125 * count) :
    ∃ k, (125 * count).log2 = 52 + (k + 1) ∧ 2 ≤ k ∧ k ≤ 6 ∧ 2 ^ (52 - (6 - k)) ≤ count := by
  have hge : 55 ≤ (125 * count).log2 := (Nat.le_log2 (by omega)).mpr hfar
  have hle : (125 * count).log2 ≤ 59 := log2_le_of_lt (by omega)
  obtain ⟨k, hk⟩ : ∃ k, (125 * count).log2 = 52 + (k + 1) :=
    ⟨(125 * count).log2 - 53, by omega⟩
  refine ⟨k, hk, by omega, by omega, ?_⟩
  have hpow : 2 ^ (52 + (k + 1)) ≤ 125 * count := by
    rw [← hk]
    exact Nat.log2_self_le (by omega)
  have hsplit : 2 ^ (52 + (k + 1)) = 128 * 2 ^ (52 - (6 - k)) := by
    rw [show (128 : ℕ) = 2 ^ 7 from rfl, ← Nat.pow_add]
    congr 1
    omega
  omega

/-- Far out, the even thousandth is turned into the value. -/
theorem nearestUnits_evenThousandth {count : ℕ} (hodd : count % 2 = 1) (hlt : count < 2 ^ 53)
    (hfar : 2 ^ 55 ≤ 125 * count) :
    nearestUnits (evenThousandth count * Double.unitsPerOne) 1000 = count * sixteenth := by
  obtain ⟨k, -, hlow, hhigh, hpow⟩ := exists_log2_eq hlt hfar
  refine nearestUnits_eq_sixteenths (by omega) (by omega) (Nat.le_of_lt hlt)
    (sixteenth_le_spacing_mul (by omega) hpow) ?_
  have hone := abs_two_mul_roundDiv_two_sub (by omega : 125 * count % 2 = 1)
  rw [← evenThousandth] at hone
  push_cast at hone
  rw [hone]
  interval_cases k <;> decide

/-- Twice the computed thousandth is at most `2 ^ k` halves off. -/
theorem abs_computedThousandth_sub_le {count k : ℕ} (h : (125 * count).log2 = 52 + (k + 1)) :
    |(2 * computedThousandth count - 125 * count : ℤ)| ≤ 2 ^ k := by
  have herror := two_mul_abs_roundDiv_sub_le .toEven (125 * count) (Nat.two_pow_pos (k + 1))
  have htwice : (roundDiv .toEven (125 * count) (2 ^ (k + 1)) * (2 ^ (k + 1) : ℕ) : ℤ) =
      2 * computedThousandth count := by
    rw [computedThousandth_of_log2 h, Nat.pow_succ]
    push_cast
    ring
  rw [htwice, Nat.pow_succ] at herror
  push_cast at herror
  linarith

/-- Far out, the computed thousandth is turned into the value where it does not stray. -/
theorem nearestUnits_computedThousandth {count : ℕ} (hodd : count % 2 = 1) (hlt : count < 2 ^ 53)
    (hfar : 2 ^ 55 ≤ 125 * count) (hstrays : ¬Strays count) :
    nearestUnits (computedThousandth count * Double.unitsPerOne) 1000 = count * sixteenth := by
  obtain ⟨k, hlog, hlow, hhigh, hpow⟩ := exists_log2_eq hlt hfar
  refine nearestUnits_eq_sixteenths (by omega) (by omega) (Nat.le_of_lt hlt)
    (sixteenth_le_spacing_mul (by omega) hpow) ?_
  have hnear := abs_computedThousandth_sub_le hlog
  have hmultiple := computedThousandth_of_log2 hlog
  have hself := Nat.log2_self_le (by omega : 125 * count ≠ 0)
  rw [hlog] at hself
  generalize roundDiv .toEven (125 * count) (2 ^ (k + 1)) = quot at hmultiple
  rw [hmultiple] at hnear ⊢
  rw [Strays] at hstrays
  push_cast at hnear ⊢
  -- an odd number of halves is no power of two, and the largest odd number left is what strays
  interval_cases k <;>
    rcases abs_cases (2 * (quot * 2 ^ _) - 125 * count : ℤ) with ⟨heq, -⟩ | ⟨heq, -⟩ <;>
    rw [heq] at hnear ⊢ <;> omega

/-- **Where the computed thousandth strays**, it is turned into the next sixteenth, an even one. -/
theorem exists_nearestUnits_of_strays {count : ℕ} (hlt : count < 2 ^ 53) (hstrays : Strays count) :
    ∃ n, n % 2 = 0 ∧ (n = count + 1 ∨ n + 1 = count) ∧
      nearestUnits (computedThousandth count * Double.unitsPerOne) 1000 = n * sixteenth := by
  obtain ⟨hfar, hmod⟩ := hstrays
  have hne : 125 * count ≠ 0 := by omega
  have hlog : (125 * count).log2 = 52 + (6 + 1) := (Nat.log2_eq_iff hne).mpr (by omega)
  have hnear := abs_computedThousandth_sub_le hlog
  have hmultiple := computedThousandth_of_log2 hlog
  generalize roundDiv .toEven (125 * count) (2 ^ (6 + 1)) = quot at hmultiple
  rw [hmultiple, abs_le] at hnear
  push_cast at hnear
  rcases hmod with hmod | hmod
  · refine ⟨count + 1, by omega, .inl rfl, ?_⟩
    refine nearestUnits_eq_sixteenths (by omega) (by omega) (by omega)
      (sixteenth_le_spacing_mul (Nat.zero_le 52) (by omega)) ?_
    have hoff : (2 * computedThousandth count - 125 * (count + 1 : ℕ) : ℤ) = -62 := by
      rw [hmultiple]
      push_cast
      omega
    rw [hoff]
    decide
  · obtain ⟨n, rfl⟩ : ∃ n, count = n + 1 := ⟨count - 1, by omega⟩
    refine ⟨n, by omega, .inr rfl, ?_⟩
    refine nearestUnits_eq_sixteenths (by omega) (by omega) (by omega)
      (sixteenth_le_spacing_mul (Nat.zero_le 52) (by omega)) ?_
    have hoff : (2 * computedThousandth (n + 1) - 125 * n : ℤ) = 62 := by
      rw [hmultiple]
      push_cast at hnear ⊢
      omega
    rw [hoff]
    decide

/-- Where it does not stray, the computed thousandth is turned into the same double as the even
one. -/
theorem nearestUnits_computedThousandth_eq {count : ℕ} (hodd : count % 2 = 1)
    (hlt : count < 2 ^ 53) (hstrays : ¬Strays count) :
    nearestUnits (computedThousandth count * Double.unitsPerOne) 1000 =
      nearestUnits (evenThousandth count * Double.unitsPerOne) 1000 := by
  by_cases hnear : 125 * count < 2 ^ 55
  · rw [computedThousandth_eq hodd hnear]
  · have hfar : 2 ^ 55 ≤ 125 * count := not_lt.mp hnear
    rw [nearestUnits_computedThousandth hodd hlt hfar hstrays,
      nearestUnits_evenThousandth hodd hlt hfar]

/-! ## Scaling, rounding to an even integer and scaling back -/

/-- A number of sixteenths times a thousand, in halves. -/
theorem exists_mul_coordinateScale_eq (negative : Bool) {size : Magnitude} {count : ℕ}
    (hcount : size.units = count * sixteenth) (hlt : count < 2 ^ 53) :
    ∃ product : Magnitude,
      Double.finite negative size * coordinateScale = .finite negative product ∧
        product.units = nearestUnits (125 * count) 1 * (8 * sixteenth) := by
  obtain ⟨scale, hscale, hscaleEq⟩ := exists_coordinateScale_eq
  have hplaces := unitPlaces_eq
  have hhalf : 8 * sixteenth = 2 ^ (Double.unitPlaces - 1) := by
    rw [sixteenth, show (8 : ℕ) = 2 ^ 3 from rfl, ← Nat.pow_add]
    congr 1
    omega
  have hunits : nearestUnits (size.units * scale.units) Double.unitsPerOne =
      nearestUnits (125 * count) 1 * (8 * sixteenth) := by
    rw [hhalf, ← nearestUnits_mul_two_pow, ← hhalf]
    refine nearestUnits_congr unitsPerOne_pos Nat.one_pos ?_
    rw [hscale, hcount]
    ring
  have hle : nearestUnits (125 * count) 1 ≤ 2 ^ 60 :=
    nearestUnits_le Nat.one_pos (onGrid_two_pow 60) (by omega)
  have hbound : nearestUnits (125 * count) 1 * (8 * sixteenth) < overflowUnits := by
    refine Nat.lt_of_le_of_lt ?_ (two_pow_lt_overflowUnits (by decide : 60 < 1024))
    rw [unitsPerOne_eq_sixteenths]
    exact Nat.mul_le_mul hle (by omega)
  refine ⟨⟨_, onGrid_nearestUnits _ _, by rw [hunits]; exact hbound⟩, ?_, hunits⟩
  rw [hscaleEq]
  change Double.ofRatio (negative ^^ false) _ _ = _
  rw [Bool.xor_false]
  exact Double.ofRatio_eq_finite rfl

/-- The even integer next to an odd number of halves, or to an even integer, is the same on both
sides of zero. -/
theorem evenFrom_signed_div_two (negative : Bool) {halves : ℕ}
    (h : halves % 2 = 1 ∨ halves % 4 = 0) :
    evenFrom (signed negative halves / 2) = signed negative (roundDiv .toEven halves 2) := by
  rcases h with hodd | heven
  · rw [roundDiv_two hodd, evenFrom]
    cases negative <;> simp only [signed] <;> split <;> push_cast <;> omega
  · obtain ⟨quarter, rfl⟩ : ∃ quarter, halves = 2 * quarter * 2 := ⟨halves / 4, by omega⟩
    rw [roundDiv_mul_self _ _ (by decide), evenFrom]
    cases negative <;> simp only [signed] <;> split <;> push_cast <;> omega

theorem floor_eq_signed_div_two (negative : Bool) {product : Magnitude} {halves : ℕ}
    (hunits : product.units = halves * (8 * sixteenth)) :
    (Double.finite negative product).floor = signed negative halves / 2 := by
  have hpos := sixteenth_pos
  have hsigned : (Double.finite negative product).units =
      signed negative halves * (8 * sixteenth : ℕ) := by
    rw [Double.units_finite, hunits, signed_mul]
  rw [Double.floor, Int.fdiv_eq_ediv_of_nonneg _ (Int.natCast_nonneg _), hsigned,
    show Double.unitsPerOne = 2 * (8 * sixteenth) by rw [unitsPerOne_eq_sixteenths]; ring,
    Nat.cast_mul 2, Int.mul_ediv_mul_of_pos_left _ _ (by omega)]
  rfl

/-- An integer on the grid as a double. -/
theorem Double.exists_ofInt_signed_eq (negative : Bool) {n : ℕ} (hpos : 0 < n)
    (hgrid : OnGrid (n * unitsPerOne)) (hlt : n * unitsPerOne < overflowUnits) :
    ∃ integer : Magnitude, integer.units = n * unitsPerOne ∧
      ofInt (signed negative n) = finite negative integer := by
  refine ⟨⟨_, hgrid, hlt⟩, rfl, ?_⟩
  have hsign : decide (signed negative n < 0) = negative := by
    rw [decide_signed_lt_zero, decide_eq_true (Nat.ne_of_gt hpos), Bool.and_true]
  rw [ofInt, hsign, natAbs_signed]
  exact ofRatio_eq_finite hgrid.nearestUnits_one

theorem exists_div_coordinateScale_eq (negative : Bool) (integer : Magnitude) :
    ∃ quotient : Magnitude, Double.finite negative integer / coordinateScale =
        .finite negative quotient ∧ quotient.units = nearestUnits integer.units 1000 := by
  obtain ⟨scale, hscale, hscaleEq⟩ := exists_coordinateScale_eq
  have hpos := unitsPerOne_pos
  have hunits : nearestUnits (integer.units * Double.unitsPerOne) scale.units =
      nearestUnits integer.units 1000 := by
    refine nearestUnits_congr (by rw [hscale]; omega) (by decide) ?_
    rw [hscale]
    ring
  have hle : nearestUnits integer.units 1000 ≤ integer.units :=
    nearestUnits_le (by decide) integer.onGrid (by omega)
  refine ⟨⟨_, onGrid_nearestUnits _ _, Nat.lt_of_le_of_lt hle integer.representable.2⟩, ?_, rfl⟩
  rw [hscaleEq]
  change (if scale.units = 0 then _ else Double.ofRatio (negative ^^ false) _ _) = _
  rw [if_neg (by rw [hscale]; omega), Bool.xor_false]
  exact Double.ofRatio_eq_finite hunits

/-- **Rounding a halfway value.**  The result is what the computed thousandth is turned into. -/
theorem exists_roundHalfway_eq (negative : Bool) {size : Magnitude} {count : ℕ}
    (hodd : count % 2 = 1) (hcount : size.units = count * sixteenth) :
    ∃ rounded : Magnitude,
      Double.ofInt (evenFrom (Double.finite negative size * coordinateScale).floor) /
          coordinateScale = .finite negative rounded ∧
        rounded.units = nearestUnits (computedThousandth count * Double.unitsPerOne) 1000 := by
  have hlt := Magnitude.lt_of_odd hodd hcount
  obtain ⟨product, hproduct, hunits⟩ := exists_mul_coordinateScale_eq negative hcount hlt
  have hcases := nearestUnits_odd_cases (by omega : 125 * count % 2 = 1) (by omega)
  have hinteger : evenFrom (Double.finite negative product).floor =
      signed negative (computedThousandth count) := by
    rw [floor_eq_signed_div_two negative hunits, evenFrom_signed_div_two negative]
    · rfl
    · rcases hcases with ⟨hself, -⟩ | hfour
      · left
        rw [hself]
        omega
      · exact .inr hfour
  have hgrid : OnGrid (computedThousandth count * Double.unitsPerOne) := by
    rcases hcases with ⟨hself, hsmall⟩ | hfour
    · refine onGrid_mul_unitsPerOne ?_
      rw [computedThousandth, hself, roundDiv_two (by omega)]
      omega
    · obtain ⟨half, hhalf⟩ : ∃ half, nearestUnits (125 * count) 1 = half * 2 :=
        ⟨nearestUnits (125 * count) 1 / 2, by omega⟩
      have hproductGrid := product.onGrid
      rw [hunits, hhalf] at hproductGrid
      rw [computedThousandth, hhalf, roundDiv_mul_self _ _ (by decide), unitsPerOne_eq_sixteenths]
      rwa [show half * (16 * sixteenth) = half * 2 * (8 * sixteenth) by ring]
  obtain ⟨hpos, hle⟩ := computedThousandth_bounds (by omega) hlt
  have hbound : computedThousandth count * Double.unitsPerOne < overflowUnits :=
    Nat.lt_of_le_of_lt (Nat.mul_le_mul_right _ hle) (two_pow_lt_overflowUnits (by decide))
  obtain ⟨integer, hintegerUnits, hintegerEq⟩ :=
    Double.exists_ofInt_signed_eq negative hpos hgrid hbound
  obtain ⟨rounded, hrounded, hroundedUnits⟩ := exists_div_coordinateScale_eq negative integer
  refine ⟨rounded, ?_, ?_⟩
  · rw [hproduct, hinteger, hintegerEq, hrounded]
  · rw [hroundedUnits, hintegerUnits]

end Toolpath
