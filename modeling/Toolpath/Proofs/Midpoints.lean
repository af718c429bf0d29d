import Toolpath.Proofs.RoundedArithmetic

/-! # Points halfway

On a rectangular bed a segment is judged by its two ends and by the point halfway between them.
That point never lies outside where both ends lie inside: the sum of two coordinates is at most
twice the limit, twice a double is on the grid, and so is what is left after halving.  Only a sum
that is too large for a double spoils this (`Bed.Overflows`).  So the point halfway adds nothing to
the verdict but those sums (`Bed.reachesSegment_eq_false_iff`).
-/
namespace Toolpath

namespace Double
variable {x y limit : Double}

/-- Neither below zero nor above a limit. -/
def Within (limit x : Double) : Prop := ¬x < 0 ∧ ¬limit < x

theorem within_iff (hlimit : limit.isFinite = true) (hx : x.isFinite = true) :
    Within limit x ↔ 0 ≤ x.units ∧ x.units ≤ limit.units := by
  rw [Within, lt_zero_iff hx, lt_iff_units_lt hlimit hx, not_lt, not_lt]

/-- What is computed lies within a limit where it does so exactly, rounded. -/
theorem Rounds.within_iff {num : ℤ} {den : ℕ} (h : x.Rounds num den)
    (hlimit : limit.isFinite = true) :
    Within limit x ↔ 0 ≤ roundQuotient num den ∧ roundQuotient num den ≤ limit.units := by
  rw [Within, h.gt_iff isFinite_zero, h.lt_iff hlimit, units_zero, not_lt, not_lt]

/-- Two is a double. -/
theorem units_two : (2 : Double).isFinite = true ∧ (2 : Double).units = 2 * unitsPerOne := by
  obtain ⟨size, hunits, heq⟩ := exists_ofNat_eq (n := 2) (by decide)
  have htwo : (2 : Double) = finite false size := heq
  rw [htwo]
  refine ⟨rfl, ?_⟩
  rw [units_finite, hunits]
  rfl

/-- Half of a double. -/
theorem rounds_half (hx : x.isFinite = true) :
    (x / 2).Rounds (x.units * unitsPerOne) (2 * unitsPerOne) := by
  obtain ⟨htwo, hunits⟩ := units_two
  have hpos : 0 < (2 : Double).units := by
    rw [hunits]
    have := unitsPerOne_pos
    omega
  have hrounds := rounds_div hx htwo hpos
  have habs : (2 : Double).units.natAbs = 2 * unitsPerOne := by
    rw [hunits]
    rfl
  rwa [habs] at hrounds

/-- Half of an infinity is that infinity. -/
theorem half_infinite (negative : Bool) : infinite negative / 2 = infinite negative := by
  obtain ⟨size, -, heq⟩ := exists_ofNat_eq (n := 2) (by decide)
  have htwo : (2 : Double) = finite false size := heq
  have hdef : infinite negative / finite false size = infinite (negative ^^ false) := rfl
  rw [htwo, hdef, Bool.xor_false]

/-- No infinity lies within a limit. -/
theorem not_within_infinite (hlimit : limit.isFinite = true) (negative : Bool) :
    ¬Within limit (infinite negative) := by
  rintro ⟨hlow, hhigh⟩
  cases negative with
  | true =>
    rw [ofNat_zero] at hlow
    exact hlow rfl
  | false =>
    obtain ⟨sign, size, rfl⟩ := exists_finite_of_isFinite hlimit
    exact hhigh rfl

/-- **The middle of two numbers within a limit** is within it, unless their sum overflows. -/
theorem within_midpoint_iff (hlimit : limit.isFinite = true) (hx : x.isFinite = true)
    (hy : y.isFinite = true) (hwithin : Within limit x) (hwithin' : Within limit y) :
    Within limit ((x + y) / 2) ↔ (x + y).isInfinite = false := by
  obtain ⟨hlow, hhigh⟩ := (within_iff hlimit hx).mp hwithin
  obtain ⟨hlow', hhigh'⟩ := (within_iff hlimit hy).mp hwithin'
  have hsum := rounds_add hx hy
  cases hadd : x + y with
  | nan => exact absurd hadd hsum.ne_nan
  | infinite negative =>
    rw [half_infinite]
    exact iff_of_false (not_within_infinite hlimit negative) (fun h => by cases h)
  | finite negative size =>
    refine iff_of_true ?_ rfl
    rw [hadd] at hsum
    have hunits := hsum.units_eq rfl
    -- twice the limit bounds the sum, whether or not it is a double
    have htwice : OnGrid (2 * limit.units).natAbs := by
      rw [Int.natAbs_mul]
      exact (onGrid_units limit).two_mul
    have hnonneg := roundQuotient_nonneg Nat.one_pos (add_nonneg hlow hlow')
    have hle : roundQuotient (x.units + y.units) 1 ≤ 2 * limit.units :=
      roundQuotient_le Nat.one_pos htwice (by rw [Nat.cast_one]; omega)
    rw [← hunits] at hnonneg hle
    have hone : (0 : ℤ) < unitsPerOne := by exact_mod_cast unitsPerOne_pos
    have hden : 0 < 2 * unitsPerOne := by omega
    rw [(rounds_half (x := finite negative size) rfl).within_iff hlimit]
    constructor
    · exact roundQuotient_nonneg hden (mul_nonneg hnonneg hone.le)
    · refine roundQuotient_le hden (onGrid_units limit) ?_
      calc (finite negative size).units * unitsPerOne
          ≤ 2 * limit.units * unitsPerOne := mul_le_mul_of_nonneg_right hle hone.le
        _ = limit.units * (2 * unitsPerOne : ℕ) := by push_cast; ring

end Double

namespace Bed
variable {bed : Bed} {a b : Point}

/-- A sum of two coordinates from which the point halfway is computed is too large for a double. -/
def Overflows : Bed → Point → Point → Prop
  | rectangular _ _ _, a, b =>
    (a.x + b.x).isInfinite = true ∨ (a.y + b.y).isInfinite = true ∨ (a.z + b.z).isInfinite = true
  | cylindrical _ _, _, _ => False

theorem reaches_rectangular_iff {maxX maxY maxZ : Double} {point : Point} :
    (rectangular maxX maxY maxZ).reaches point = true ↔
      Double.Within maxX point.x ∧ Double.Within maxY point.y ∧ Double.Within maxZ point.z := by
  simp [reaches, violations, limits, Double.Within]
  tauto

/-- **Between two points in reach** only an overflow puts the point halfway out of reach. -/
theorem reaches_midpoint_iff {maxX maxY maxZ : Double}
    (hbed : (rectangular maxX maxY maxZ).IsFinite) (ha : a.IsFinite) (hb : b.IsFinite)
    (hreach : (rectangular maxX maxY maxZ).reaches a = true)
    (hreach' : (rectangular maxX maxY maxZ).reaches b = true) :
    (rectangular maxX maxY maxZ).reaches (a.midpoint b) = true ↔
      ¬(rectangular maxX maxY maxZ).Overflows a b := by
  obtain ⟨hx, hy, hz⟩ := hbed
  obtain ⟨hax, hay, haz⟩ := reaches_rectangular_iff.mp hreach
  obtain ⟨hbx, hby, hbz⟩ := reaches_rectangular_iff.mp hreach'
  rw [reaches_rectangular_iff, Point.midpoint, Double.within_midpoint_iff hx ha.x hb.x hax hbx,
    Double.within_midpoint_iff hy ha.y hb.y hay hby,
    Double.within_midpoint_iff hz ha.z hb.z haz hbz, Overflows]
  simp only [not_or, Bool.not_eq_true]

theorem reachesSegment_iff (hbed : bed.IsFinite) (ha : a.IsFinite) (hb : b.IsFinite) :
    bed.reachesSegment a b = true ↔
      bed.reaches a = true ∧ bed.reaches b = true ∧ ¬bed.Overflows a b := by
  cases bed with
  | rectangular maxX maxY maxZ =>
    rw [reachesSegment, Bool.and_eq_true, Bool.and_eq_true, and_assoc]
    refine and_congr_right fun hreach => and_congr_right fun hreach' => ?_
    exact reaches_midpoint_iff hbed ha hb hreach hreach'
  | cylindrical radius maxZ => simp [reachesSegment, Overflows]

/-- Where no sum overflows, paths without a bad point have no bad segment. -/
theorem badSegments_eq_nil {paths : List Path} (hbed : bed.IsFinite)
    (hpaths : ∀ path ∈ paths, ∀ point ∈ path, point.IsFinite)
    (hsums : ∀ path ∈ paths, ∀ segment ∈ path.segments, ¬bed.Overflows segment.1 segment.2)
    (hpoints : (bed.diagnose paths).badPoints = []) : (bed.diagnose paths).badSegments = [] := by
  rw [badPoints_diagnose, List.filter_eq_nil_iff] at hpoints
  have hreach : ∀ path ∈ paths, ∀ point ∈ path, bed.reaches point = true := by
    intro path hpath point hpoint
    have hnot := hpoints point (List.mem_flatten.mpr ⟨path, hpath, hpoint⟩)
    rwa [Bool.not_eq_true', Bool.not_eq_false] at hnot
  rw [diagnose, List.flatMap_eq_nil_iff]
  intro path hpath
  rw [List.filter_eq_nil_iff]
  intro segment hsegment
  obtain ⟨hfirst, hsecond⟩ := List.of_mem_zip hsegment
  have hsecond := List.mem_of_mem_tail hsecond
  have hfollow : bed.reachesSegment segment.1 segment.2 = true := by
    apply (reachesSegment_iff hbed (hpaths path hpath _ hfirst) (hpaths path hpath _ hsecond)).mpr
    exact ⟨hreach path hpath _ hfirst, hreach path hpath _ hsecond, hsums path hpath _ hsegment⟩
  rw [hfollow]
  decide

/-- **A segment is bad only because of an end**, or because a sum of two coordinates overflows on a
rectangular bed.  So paths without a bad point have no bad segment, those overflows aside. -/
theorem reachesSegment_eq_false_iff (hbed : bed.IsFinite) :
    (∀ a b : Point, a.IsFinite → b.IsFinite →
      (bed.reachesSegment a b = false ↔
        bed.reaches a = false ∨ bed.reaches b = false ∨ bed.Overflows a b)) ∧
    ∀ paths : List Path, (∀ path ∈ paths, ∀ point ∈ path, point.IsFinite) →
      (∀ path ∈ paths, ∀ segment ∈ path.segments, ¬bed.Overflows segment.1 segment.2) →
      (bed.diagnose paths).badPoints = [] → (bed.diagnose paths).badSegments = [] := by
  refine ⟨fun a b ha hb => ?_, fun paths => badSegments_eq_nil hbed⟩
  rw [← Bool.not_eq_true, reachesSegment_iff hbed ha hb, not_and_or, not_and_or, not_not,
    Bool.not_eq_true, Bool.not_eq_true]

/-- A bed as wide as doubles go: the sum of a coordinate in reach with itself overflows. -/
theorem reachesSegment_eq_false_iff_widest :
    (rectangular 1.7e308 300 300).IsFinite ∧ (⟨1.7e308, 0, 0⟩ : Point).IsFinite ∧
      (rectangular 1.7e308 300 300).reaches ⟨1.7e308, 0, 0⟩ = true ∧
      (rectangular 1.7e308 300 300).reachesSegment ⟨1.7e308, 0, 0⟩ ⟨1.7e308, 0, 0⟩ = false := by
  have hbed : (rectangular 1.7e308 300 300).IsFinite := by
    refine ⟨?_, ?_, ?_⟩ <;> decide +kernel
  have hpoint : (⟨1.7e308, 0, 0⟩ : Point).IsFinite := by
    constructor <;> decide +kernel
  have hoverflow : (rectangular 1.7e308 300 300).Overflows ⟨1.7e308, 0, 0⟩ ⟨1.7e308, 0, 0⟩ :=
    .inl (by decide +kernel)
  refine ⟨hbed, hpoint, by decide +kernel, ?_⟩
  exact ((reachesSegment_eq_false_iff hbed).1 _ _ hpoint hpoint).mpr (.inr (.inr hoverflow))

end Bed
end Toolpath
