import Toolpath.Proofs.Coordinates
import Toolpath.Proofs.StepTexts

/-! # Laws of rounded coordinates

A coordinate is the double nearest to the value rounded to thousandths, ties going to the even one,
with one exception: from `2 ^ 58` thousandths on, the halfway values that stray
(`roundCoordinate_nearest_iff`).  They end on the sixteenth next to them, which is even and not
rounded itself.  So even sixteenths bound what is rounded from both sides, and rounding keeps the
order even there (`Magnitude.roundedUnits_mono`, `roundCoordinate_projection`).  What is printed of a
coordinate is read back as the same double (`exists_text_roundCoordinate`).
-/
namespace Toolpath

/-! ## Rounding keeps the order -/

theorem roundDiv_mono (tie : Tie) {num num' den : ℕ} (hden : 0 < den) (h : num ≤ num') :
    roundDiv tie num den ≤ roundDiv tie num' den := by
  have hle : (num : ℚ) / den ≤ num' / den :=
    div_le_div_of_nonneg_right (by exact_mod_cast h) (Nat.cast_nonneg den)
  have hmono := (isNearest_roundDiv tie num hden).mono hle (isNearest_roundDiv tie num' hden)
  exact_mod_cast hmono

/-- Rounding to the grid keeps the order: were the results the other way round, both quotients would
be the middle between them. -/
theorem nearestUnits_mono {num num' den : ℕ} (hden : 0 < den) (h : num ≤ num') :
    nearestUnits num den ≤ nearestUnits num' den := by
  by_contra hgt
  have hlow := nearestUnits_nearest num hden (onGrid_nearestUnits num' den)
  have hhigh := nearestUnits_nearest num' hden (onGrid_nearestUnits num den)
  have hlt : (nearestUnits num' den * den : ℤ) < nearestUnits num den * den := by
    exact_mod_cast Nat.mul_lt_mul_of_pos_right (not_le.mp hgt) hden
  have hmiddle := add_le_two_mul_of_abs_le hlt hlow
  have hmiddle' := two_mul_le_add_of_abs_le hlt hhigh
  have hsame : num = num' := by omega
  rw [hsame] at hgt
  exact hgt (le_refl _)

namespace Magnitude
variable {size other : Magnitude} {n : ℕ}

/-- The units that a size is rounded to. -/
def roundedUnits (size : Magnitude) : ℕ :=
  nearestUnits (size.thousandths * Double.unitsPerOne) 1000

/-- The units of the double nearest to a whole number of thousandths next to some units. -/
def nearestRounded (units : ℕ) : ℕ :=
  nearestUnits (roundDiv .toEven (units * 1000) Double.unitsPerOne * Double.unitsPerOne) 1000

theorem roundedUnits_of_not_strays (h : ¬size.Strays) :
    size.roundedUnits = nearestRounded size.units :=
  nearestUnits_thousandths h

theorem nearestRounded_mono {m n : ℕ} (h : m ≤ n) : nearestRounded m ≤ nearestRounded n := by
  refine nearestUnits_mono (by decide) (Nat.mul_le_mul_right _ ?_)
  exact roundDiv_mono .toEven unitsPerOne_pos (Nat.mul_le_mul_right _ h)

/-- An even number of sixteenths is a whole number of thousandths. -/
theorem nearestRounded_sixteenths (heven : n % 2 = 0) (hgrid : OnGrid (n * sixteenth)) :
    nearestRounded (n * sixteenth) = n * sixteenth := by
  have hexact : n * sixteenth * 1000 = 125 * (n / 2) * Double.unitsPerOne := by
    rw [unitsPerOne_eq_sixteenths]
    calc n * sixteenth * 1000 = 2 * (n / 2) * sixteenth * 1000 := by
          rw [Nat.mul_div_cancel' (Nat.dvd_of_mod_eq_zero heven)]
      _ = _ := by ring
  rw [nearestRounded, hexact, roundDiv_mul_self _ _ unitsPerOne_pos, ← hexact,
    nearestUnits_mul_self (by decide) hgrid]

/-- **Even sixteenths are bounds**: what lies below one is not rounded beyond it. -/
theorem roundedUnits_le (heven : n % 2 = 0) (hgrid : OnGrid (n * sixteenth))
    (h : size.units ≤ n * sixteenth) : size.roundedUnits ≤ n * sixteenth := by
  by_cases hstrays : size.Strays
  · obtain ⟨count, next, hcount, ⟨-, hmod⟩, -, hnext, hrounded⟩ := hstrays.exists_nearestUnits_eq
    rw [hcount] at h
    have hle := Nat.le_of_mul_le_mul_right h sixteenth_pos
    rw [roundedUnits, hrounded]
    exact Nat.mul_le_mul_right _ (by omega)
  · rw [roundedUnits_of_not_strays hstrays, ← nearestRounded_sixteenths heven hgrid]
    exact nearestRounded_mono h

theorem le_roundedUnits (heven : n % 2 = 0) (hgrid : OnGrid (n * sixteenth))
    (h : n * sixteenth ≤ size.units) : n * sixteenth ≤ size.roundedUnits := by
  by_cases hstrays : size.Strays
  · obtain ⟨count, next, hcount, ⟨-, hmod⟩, -, hnext, hrounded⟩ := hstrays.exists_nearestUnits_eq
    rw [hcount] at h
    have hle := Nat.le_of_mul_le_mul_right h sixteenth_pos
    rw [roundedUnits, hrounded]
    exact Nat.mul_le_mul_right _ (by omega)
  · rw [roundedUnits_of_not_strays hstrays, ← nearestRounded_sixteenths heven hgrid]
    exact nearestRounded_mono h

/-- The doubles next to a size that strays are a sixteenth away, so there is an even number of
sixteenths between it and any size above it. -/
theorem Strays.exists_between_above (h : size.Strays) (hlt : size.units < other.units) :
    ∃ n, n % 2 = 0 ∧ OnGrid (n * sixteenth) ∧ size.units ≤ n * sixteenth ∧
      n * sixteenth ≤ other.units := by
  obtain ⟨count, hcount, hodd, hfar, hmod⟩ := h
  have hcountLt := lt_of_odd hodd hcount
  have hspacing := sixteenth_le_spacing_mul (n := count) (Nat.zero_le 52) (by omega)
  have hgap := size.onGrid.add_spacing_le other.onGrid hlt
  rw [hcount] at hgap ⊢
  rw [Nat.pow_zero, Nat.mul_one] at hspacing
  refine ⟨count + 1, by omega, onGrid_mul_sixteenth (by omega), ?_, ?_⟩
  · exact Nat.mul_le_mul_right _ (Nat.le_succ count)
  · rw [Nat.add_mul, Nat.one_mul]
    omega

theorem Strays.exists_between_below (h : size.Strays) (hlt : other.units < size.units) :
    ∃ n, n % 2 = 0 ∧ OnGrid (n * sixteenth) ∧ other.units ≤ n * sixteenth ∧
      n * sixteenth ≤ size.units := by
  obtain ⟨count, hcount, hodd, hfar, hmod⟩ := h
  have hcountLt := lt_of_odd hodd hcount
  have hspacing := sixteenth_le_spacing_mul (n := count) (Nat.zero_le 52) (by omega)
  have hne := mul_sixteenth_ne_two_pow (n := count) (by omega) (by omega)
  rw [← hcount] at hne
  have hgap := other.onGrid.add_spacing_le_of_ne size.onGrid hlt hne
  rw [hcount] at hgap ⊢
  rw [Nat.pow_zero, Nat.mul_one] at hspacing
  obtain ⟨before, rfl⟩ : ∃ before, count = before + 1 := ⟨count - 1, by omega⟩
  refine ⟨before, by omega, onGrid_mul_sixteenth (by omega), ?_, ?_⟩
  · have hsplit : (before + 1) * sixteenth = before * sixteenth + sixteenth :=
      Nat.succ_mul before sixteenth
    omega
  · exact Nat.mul_le_mul_right _ (Nat.le_succ before)

/-- **Rounding keeps the order of sizes.** -/
theorem roundedUnits_mono (h : size.units ≤ other.units) :
    size.roundedUnits ≤ other.roundedUnits := by
  by_cases hsame : size.units = other.units
  · rw [Magnitude.ext hsame]
  have hlt : size.units < other.units := Nat.lt_of_le_of_ne h hsame
  have hbetween : size.Strays ∨ other.Strays → ∃ n, n % 2 = 0 ∧ OnGrid (n * sixteenth) ∧
      size.units ≤ n * sixteenth ∧ n * sixteenth ≤ other.units := by
    rintro (hstrays | hstrays)
    · exact hstrays.exists_between_above hlt
    · exact hstrays.exists_between_below hlt
  by_cases hstrays : size.Strays ∨ other.Strays
  · obtain ⟨n, heven, hgrid, hbelow, habove⟩ := hbetween hstrays
    exact Nat.le_trans (roundedUnits_le heven hgrid hbelow) (le_roundedUnits heven hgrid habove)
  · rw [roundedUnits_of_not_strays fun hs => hstrays (.inl hs),
      roundedUnits_of_not_strays fun hs => hstrays (.inr hs)]
    exact nearestRounded_mono h

end Magnitude

/-! ## Signs -/

/-- A law of sizes that keeps their order and what is nothing keeps the order with signs too. -/
theorem signed_le_signed {m n : Bool} {a b c d : ℕ} (hle : a ≤ b → c ≤ d) (hge : b ≤ a → d ≤ c)
    (hzero : a = 0 → c = 0) (hzero' : b = 0 → d = 0) (h : signed m a ≤ signed n b) :
    signed m c ≤ signed n d := by
  cases m <;> cases n <;> simp only [signed, Bool.false_eq_true, if_false, if_true] at h ⊢ <;> omega

theorem Magnitude.roundedUnits_eq_zero {size : Magnitude} (h : size.units = 0) :
    size.roundedUnits = 0 := by
  have hgrid : OnGrid (0 * sixteenth) := by
    rw [Nat.zero_mul]
    exact onGrid_zero
  have hle : size.roundedUnits ≤ 0 * sixteenth := roundedUnits_le rfl hgrid (by omega)
  omega

namespace Double
variable {u v : Double}

/-- Taking the sign off a zero does not change its units. -/
theorem units_ite_isZero (negative : Bool) (size : Magnitude) :
    (if (finite negative size).isZero then 0 else finite negative size : Double).units =
      signed negative size.units := by
  split
  · rename_i hzero
    rw [isZero_finite.mp hzero, ofNat_zero]
    cases negative <;> rfl
  · exact units_finite negative size

theorem units_roundCoordinate (negative : Bool) (size : Magnitude) :
    (roundCoordinate (finite negative size)).units = signed negative size.roundedUnits := by
  obtain ⟨rounded, heq, hunits⟩ := exists_roundCoordinate_eq negative size
  rw [heq, units_ite_isZero, hunits, Magnitude.roundedUnits]

/-- **Rounding keeps the order of the doubles.** -/
theorem units_roundCoordinate_mono (hu : u.isFinite = true) (hv : v.isFinite = true)
    (h : u.units ≤ v.units) : (roundCoordinate u).units ≤ (roundCoordinate v).units := by
  obtain ⟨negative, size, rfl⟩ := exists_finite_of_isFinite hu
  obtain ⟨negative', other, rfl⟩ := exists_finite_of_isFinite hv
  rw [units_finite, units_finite] at h
  rw [units_roundCoordinate, units_roundCoordinate]
  exact signed_le_signed Magnitude.roundedUnits_mono Magnitude.roundedUnits_mono
    Magnitude.roundedUnits_eq_zero Magnitude.roundedUnits_eq_zero h

/-- Rounding does the same on both sides of zero. -/
theorem units_roundCoordinate_neg (hv : v.isFinite = true) :
    (roundCoordinate (-v)).units = -(roundCoordinate v).units := by
  obtain ⟨negative, size, rfl⟩ := exists_finite_of_isFinite hv
  have hneg : -(finite negative size) = finite (!negative) size := rfl
  rw [hneg, units_roundCoordinate, units_roundCoordinate, signed_not]

end Double

/-- **Rounding is an odd projection that keeps the order.** -/
theorem roundCoordinate_projection {u v : Double} (hu : u.isFinite = true)
    (hv : v.isFinite = true) :
    (roundCoordinate v).isFinite = true ∧
      roundCoordinate (roundCoordinate v) = roundCoordinate v ∧
      (u.value ≤ v.value → (roundCoordinate u).value ≤ (roundCoordinate v).value) ∧
      (roundCoordinate (-v)).value = -(roundCoordinate v).value := by
  refine ⟨(isCoordinate_roundCoordinate hv).isFinite, roundCoordinate_roundCoordinate v, ?_, ?_⟩
  · intro hle
    exact Double.value_le_value.mpr
      (Double.units_roundCoordinate_mono hu hv (Double.value_le_value.mp hle))
  · rw [← Double.value_neg, Double.value_inj, Double.units_neg]
    exact Double.units_roundCoordinate_neg hv

/-- A halfway value and one that strays. -/
theorem roundCoordinate_projection_halfway :
    (0.0625 : Double).isFinite = true ∧ (288230376151713.3125 : Double).isFinite = true ∧
      (roundCoordinate 288230376151713.3125).isFinite = true ∧
      roundCoordinate (roundCoordinate 288230376151713.3125) =
        roundCoordinate 288230376151713.3125 ∧
      ((0.0625 : Double).value ≤ (288230376151713.3125 : Double).value →
        (roundCoordinate 0.0625).value ≤ (roundCoordinate 288230376151713.3125).value) ∧
      (roundCoordinate (-288230376151713.3125)).value =
        -(roundCoordinate 288230376151713.3125).value := by
  have hsmall : (0.0625 : Double).isFinite = true := by decide +kernel
  have hlarge : (288230376151713.3125 : Double).isFinite = true := by decide +kernel
  exact ⟨hsmall, hlarge, roundCoordinate_projection hsmall hlarge⟩

/-! ## What is printed -/

/-- **Printing a coordinate loses nothing.** -/
theorem exists_text_roundCoordinate {v : Double} (h : v.isFinite = true) :
    ∃ text, (roundCoordinate v).plain? = .ok text ∧
      Double.ofText? text = some (roundCoordinate v) := by
  have hcoordinate := isCoordinate_roundCoordinate h
  refine ⟨(roundCoordinate v).plainText, ?_, Double.ofText?_plainText hcoordinate⟩
  rw [Double.plain?, if_pos hcoordinate.isFinite]

theorem exists_text_roundCoordinate_large :
    (8589934592.12345 : Double).isFinite = true ∧
      ∃ text, (roundCoordinate 8589934592.12345).plain? = .ok text ∧
        Double.ofText? text = some (roundCoordinate 8589934592.12345) := by
  have hfinite : (8589934592.12345 : Double).isFinite = true := by decide +kernel
  exact ⟨hfinite, exists_text_roundCoordinate hfinite⟩

/-! ## The exact value decides, except where it strays -/

namespace Double
variable {v : Double}

/-- A finite double as near to an exact number as any other. -/
def IsNearestTo (x : Double) (q : ℚ) : Prop :=
  x.isFinite = true ∧ ∀ w : Double, w.isFinite = true → |x.value - q| ≤ |w.value - q|

/-- The doubles that stray, on both sides of zero. -/
def Strays (v : Double) : Prop := ∃ count : ℕ, |v.value| * 16 = count ∧ Toolpath.Strays count

theorem strays_finite {negative : Bool} {size : Magnitude} :
    (finite negative size).Strays ↔ size.Strays := by
  have hvalue (count : ℕ) :
      |(finite negative size).value| * 16 = count ↔ size.units = count * sixteenth := by
    have hpos : (0 : ℚ) < sixteenth := by exact_mod_cast sixteenth_pos
    rw [abs_value_finite, unitsPerOne_eq_sixteenths, div_mul_eq_mul_div]
    push_cast
    rw [div_eq_iff (by positivity)]
    rw [mul_left_comm, mul_comm (size.units : ℚ), mul_right_inj' (by decide)]
    exact_mod_cast Iff.rfl
  constructor
  · rintro ⟨count, hcount, hstrays⟩
    exact ⟨count, (hvalue count).mp hcount, by obtain ⟨-, hmod⟩ := hstrays; omega, hstrays⟩
  · rintro ⟨count, hcount, -, hstrays⟩
    exact ⟨count, (hvalue count).mpr hcount, hstrays⟩

/-- A whole number of thousandths as a double. -/
theorem ofSteps_signed (negative : Bool) {k : ℕ} {rounded : Magnitude}
    (h : rounded.units = nearestUnits (k * unitsPerOne) 1000) :
    ofSteps coordinatePlaces (signed negative k) =
      if (finite negative rounded).isZero then 0 else finite negative rounded := by
  have hthousand : 10 ^ coordinatePlaces = 1000 := rfl
  rw [ofSteps, decide_signed_lt_zero, natAbs_signed, ofDecimal_steps, hthousand]
  by_cases hnone : k = 0
  · rw [hnone, Nat.zero_mul] at h ⊢
    rw [nearestUnits_zero (by decide)] at h
    rw [if_pos (isZero_finite.mpr h), ofRatio_zero _ (by decide), ofNat_zero]
    cases negative <;> rfl
  · have hone : 1000 ≤ unitsPerOne := by decide +kernel
    have hpos : 1 ≤ rounded.units := by
      rw [h]
      refine le_nearestUnits (by decide) (onGrid_two_pow 0) ?_
      exact Nat.le_trans (by omega) (Nat.mul_le_mul (Nat.pos_of_ne_zero hnone) hone)
    rw [decide_eq_true hnone, Bool.and_true, ofRatio_eq_finite h.symm, if_neg]
    rw [isZero_finite]
    omega

/-- Distances of doubles from thousandths in whole numbers. -/
theorem abs_value_sub (x : Double) (i : ℤ) :
    |x.value - i / 1000| = |(x.units * 1000 - i * unitsPerOne : ℤ)| / (unitsPerOne * 1000) := by
  have hpos := unitsPerOne_cast_pos
  rw [value, div_sub_div _ _ (ne_of_gt hpos) (by decide), abs_div,
    abs_of_pos (by positivity : (0 : ℚ) < unitsPerOne * 1000), mul_comm (unitsPerOne : ℚ) (i : ℚ)]
  push_cast
  rfl

/-- No finite double is nearer to a whole number of thousandths than what it is rounded to. -/
theorem isNearestTo_of_units (negative : Bool) {k : ℕ} {x : Double} (hx : x.isFinite = true)
    (hunits : x.units = signed negative (nearestUnits (k * unitsPerOne) 1000)) :
    x.IsNearestTo ((signed negative k : ℤ) / 1000) := by
  refine ⟨hx, fun w hw => ?_⟩
  obtain ⟨negative', size, rfl⟩ := exists_finite_of_isFinite hw
  have hnearest := nearestUnits_nearest (k * unitsPerOne) (by decide : 0 < 1000) size.onGrid
  have hsigns := abs_sub_le_abs_signed_sub negative' negative (size.units * 1000) (k * unitsPerOne)
  rw [← Nat.cast_mul, ← Nat.cast_mul, ← abs_signed_sub_signed negative] at hnearest
  have hle := le_trans hnearest hsigns
  rw [signed_mul, signed_mul, signed_mul, ← hunits, ← units_finite] at hle
  rw [abs_value_sub, abs_value_sub]
  have hpos := unitsPerOne_cast_pos
  exact div_le_div_of_nonneg_right (by exact_mod_cast hle) (by positivity)

/-- Every whole number of thousandths that is nearest to a size is turned into a double: into the
size itself where it strays. -/
theorem exists_units_eq_evenThousandths (size : Magnitude) :
    ∃ rounded : Magnitude,
      rounded.units = nearestUnits (size.evenThousandths * unitsPerOne) 1000 := by
  by_cases hstrays : size.Strays
  · exact ⟨size, hstrays.nearestUnits_evenThousandths.symm⟩
  · obtain ⟨rounded, -, hunits⟩ := exists_roundCoordinate_eq false size
    exact ⟨rounded, by rw [hunits, Magnitude.nearestUnits_thousandths hstrays]⟩

theorem nearestSteps_finite (negative : Bool) (size : Magnitude) :
    (finite negative size).nearestSteps .toEven coordinatePlaces =
      signed negative size.evenThousandths := rfl

theorem isNearest_thousandths (h : v.isFinite = true) :
    IsNearest .toEven (v.value * 1000) (v.nearestSteps .toEven coordinatePlaces) := by
  have hnearest := isNearest_nearestSteps .toEven coordinatePlaces h
  have hthousand : (10 ^ coordinatePlaces : ℚ) = 1000 := by norm_num [coordinatePlaces]
  rwa [hthousand] at hnearest

/-- The double of the nearest thousandths is the nearest double to them. -/
theorem isNearestTo_ofSteps (h : v.isFinite = true) :
    (ofSteps coordinatePlaces (v.nearestSteps .toEven coordinatePlaces)).IsNearestTo
      (v.nearestSteps .toEven coordinatePlaces / 1000) := by
  obtain ⟨negative, size, rfl⟩ := exists_finite_of_isFinite h
  obtain ⟨rounded, hunits⟩ := exists_units_eq_evenThousandths size
  rw [nearestSteps_finite, ofSteps_signed negative hunits]
  refine isNearestTo_of_units negative ?_ ?_
  · split
    · rw [ofNat_zero]
      rfl
    · rfl
  · rw [units_ite_isZero, hunits]

/-- A double that does not stray is rounded to the nearest thousandths. -/
theorem ofSteps_nearestSteps (h : v.isFinite = true) (hstrays : ¬v.Strays) :
    ofSteps coordinatePlaces (v.nearestSteps .toEven coordinatePlaces) = roundCoordinate v := by
  obtain ⟨negative, size, rfl⟩ := exists_finite_of_isFinite h
  rw [strays_finite] at hstrays
  obtain ⟨rounded, heq, hunits⟩ := exists_roundCoordinate_eq negative size
  rw [Magnitude.nearestUnits_thousandths hstrays] at hunits
  rw [nearestSteps_finite, ofSteps_signed negative hunits, heq]

/-- A double that strays is rounded to the next sixteenth. -/
theorem Strays.abs_roundCoordinate_sub (h : v.isFinite = true) (hstrays : v.Strays) :
    |(roundCoordinate v).value - v.value| = 1 / 16 := by
  obtain ⟨negative, size, rfl⟩ := exists_finite_of_isFinite h
  rw [strays_finite] at hstrays
  obtain ⟨count, n, hcount, -, -, hnext, hrounded⟩ := hstrays.exists_nearestUnits_eq
  have hpos : (0 : ℚ) < sixteenth := by exact_mod_cast sixteenth_pos
  have hone : |(n - count : ℤ)| = 1 := by
    rw [abs_eq (by decide)]
    omega
  rw [value, value, units_roundCoordinate, units_finite, ← sub_div, abs_div, Nat.abs_cast,
    Magnitude.roundedUnits, hrounded, hcount, ← Int.cast_sub, ← Int.cast_abs,
    abs_signed_sub_signed]
  rw [Nat.cast_mul, Nat.cast_mul, ← sub_mul, abs_mul, hone, Nat.abs_cast, unitsPerOne_eq_sixteenths]
  push_cast
  field_simp

/-- What a double that strays is rounded to is not nearest to the thousandths: the double itself is
nearer. -/
theorem Strays.not_isNearestTo (h : v.isFinite = true) (hstrays : v.Strays) :
    ¬(roundCoordinate v).IsNearestTo (v.nearestSteps .toEven coordinatePlaces / 1000) := by
  rintro ⟨-, hnearest⟩
  have hself := hnearest v h
  have hfar := hstrays.abs_roundCoordinate_sub h
  have hhalf := (isNearest_thousandths h).abs_sub_le_half
  generalize v.nearestSteps .toEven coordinatePlaces = m at hself hhalf
  have hnear : |v.value - m / 1000| ≤ 1 / 2000 := by
    rw [abs_le] at hhalf ⊢
    constructor <;> linarith
  have htriangle := abs_sub_le (roundCoordinate v).value (m / 1000) v.value
  rw [abs_sub_comm ((m : ℚ) / 1000)] at htriangle
  linarith

end Double

/-- **The exact value decides.**  A finite double is rounded to the double nearest to the nearest
thousandths, the even ones of two, unless it strays; then it is a sixteenth off.  No result is a
negative zero. -/
theorem roundCoordinate_nearest_iff {v : Double} (h : v.isFinite = true) :
    ∃ m : ℤ, IsNearest .toEven (v.value * 1000) m ∧
      (Double.ofText? (stepsText coordinatePlaces m) = some (roundCoordinate v) ↔ ¬v.Strays) ∧
      ((roundCoordinate v).IsNearestTo (m / 1000) ↔ ¬v.Strays) ∧
      (v.Strays → |(roundCoordinate v).value - v.value| = 1 / 16) ∧
      roundCoordinate v ≠ .zero true := by
  refine ⟨_, Double.isNearest_thousandths h, ⟨?_, ?_⟩, ⟨?_, ?_⟩, ?_, ?_⟩
  · intro htext hstrays
    rw [ofText?_stepsText, Option.some_inj] at htext
    have hnearest := Double.isNearestTo_ofSteps h
    rw [htext] at hnearest
    exact hstrays.not_isNearestTo h hnearest
  · intro hstrays
    rw [ofText?_stepsText, Double.ofSteps_nearestSteps h hstrays]
  · intro hnearest hstrays
    exact hstrays.not_isNearestTo h hnearest
  · intro hstrays
    rw [← Double.ofSteps_nearestSteps h hstrays]
    exact Double.isNearestTo_ofSteps h
  · intro hstrays
    exact hstrays.abs_roundCoordinate_sub h
  · exact (isCoordinate_roundCoordinate h).ne_zero_true

/-- An odd number of sixteenths is a tie between thousandths. -/
theorem roundCoordinate_nearest_iff_tie :
    (-0.1875 : Double).isFinite = true ∧
      ∃ m : ℤ, IsNearest .toEven ((-0.1875 : Double).value * 1000) m ∧
        (Double.ofText? (stepsText coordinatePlaces m) = some (roundCoordinate (-0.1875)) ↔
          ¬(-0.1875 : Double).Strays) ∧
        ((roundCoordinate (-0.1875)).IsNearestTo (m / 1000) ↔ ¬(-0.1875 : Double).Strays) ∧
        ((-0.1875 : Double).Strays →
          |(roundCoordinate (-0.1875)).value - (-0.1875 : Double).value| = 1 / 16) ∧
        roundCoordinate (-0.1875) ≠ .zero true := by
  have hfinite : (-0.1875 : Double).isFinite = true := by decide +kernel
  exact ⟨hfinite, roundCoordinate_nearest_iff hfinite⟩

/-- The least value that strays, `288230376151713.3125`, is rounded to the next sixteenth. -/
theorem not_forall_roundCoordinate_nearest :
    ¬∀ v : Double, v.isFinite = true →
      ∃ m : ℤ, IsNearest .toEven (v.value * 1000) m ∧
        Double.ofText? (stepsText coordinatePlaces m) = some (roundCoordinate v) := by
  intro h
  have hfinite : (288230376151713.3125 : Double).isFinite = true := by decide +kernel
  obtain ⟨m, hm, htext⟩ := h _ hfinite
  rw [hm.unique (Double.isNearest_thousandths hfinite), ofText?_stepsText] at htext
  have hdiffer : ¬some (Double.ofSteps coordinatePlaces
      ((288230376151713.3125 : Double).nearestSteps .toEven coordinatePlaces)) =
      some (roundCoordinate 288230376151713.3125) := by decide +kernel
  exact hdiffer htext

end Toolpath
