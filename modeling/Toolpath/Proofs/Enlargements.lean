import Toolpath.Proofs.Surveys

/-! # Larger beds

A bed that is given more room judges no more strictly.  What exceeds a limit exceeds every smaller
one, be it a number or an infinity (`Double.lt_of_units_le`), so a point breaks no limit of the
larger bed that it did not break before (`Bed.FitsIn.violations_sublist`).  Whatever is derived from
the limits follows: points and segments that were in reach stay in reach, the point halfway
included, and the lists of what is out of reach only lose members (`Bed.diagnose_fitsIn`).
-/
namespace Toolpath

/-- What exceeds a limit exceeds every limit that is no larger. -/
theorem Double.lt_of_units_le {limit larger x : Double} (hlimit : limit.isFinite = true)
    (hlarger : larger.isFinite = true) (hle : limit.units ≤ larger.units) (h : larger < x) :
    limit < x := by
  by_cases hx : x.isFinite = true
  · rw [lt_iff_units_lt hlarger hx] at h
    rw [lt_iff_units_lt hlimit hx]
    exact lt_of_le_of_lt hle h
  · -- nothing but the sign of an infinity decides, and NaN exceeds nothing
    obtain ⟨sign, size, rfl⟩ := exists_finite_of_isFinite hlimit
    obtain ⟨other, bound, rfl⟩ := exists_finite_of_isFinite hlarger
    cases x with
    | nan => cases h
    | infinite negative => exact h
    | finite negative magnitude => exact absurd rfl hx

/-- A limit that is broken only where the other one is. -/
def Violation.Relaxes (looser stricter : Violation × Bool) : Prop :=
  looser.1 = stricter.1 ∧ (looser.2 = true → stricter.2 = true)

/-- Limits that are relaxed one by one are broken at fewer places. -/
theorem Violation.sublist_of_relaxes {looser stricter : List (Violation × Bool)}
    (h : List.Forall₂ Relaxes looser stricter) :
    ((looser.filter (·.2)).map (·.1)).Sublist ((stricter.filter (·.2)).map (·.1)) := by
  induction h with
  | nil => exact .slnil
  | @cons a b looser stricter hrelax _ ih =>
    obtain ⟨hname, himp⟩ := hrelax
    by_cases ha : a.2 = true
    · rw [List.filter_cons_of_pos ha, List.filter_cons_of_pos (himp ha), List.map_cons,
        List.map_cons, hname]
      exact ih.cons_cons _
    · rw [List.filter_cons_of_neg ha]
      by_cases hb : b.2 = true
      · rw [List.filter_cons_of_pos hb, List.map_cons]
        exact ih.cons _
      · rw [List.filter_cons_of_neg hb]
        exact ih

namespace Bed
variable {bed larger : Bed}

/-- A bed of the same kind none of whose sizes is smaller. -/
inductive FitsIn : Bed → Bed → Prop
  | rectangular {maxX maxY maxZ x y z : Double} (hx : maxX.units ≤ x.units)
    (hy : maxY.units ≤ y.units) (hz : maxZ.units ≤ z.units) :
    FitsIn (.rectangular maxX maxY maxZ) (.rectangular x y z)
  | cylindrical {radius maxZ r z : Double} (hradius : radius.units ≤ r.units)
    (hz : maxZ.units ≤ z.units) : FitsIn (.cylindrical radius maxZ) (.cylindrical r z)

namespace FitsIn

/-- The limits of the larger bed relax those of the bed, one by one. -/
theorem relaxes_limits (h : bed.FitsIn larger) (hbed : bed.IsFinite) (hlarger : larger.IsFinite)
    (point : Point) :
    List.Forall₂ Violation.Relaxes (larger.limits point) (bed.limits point) := by
  have hsame (limit : Violation × Bool) : Violation.Relaxes limit limit := ⟨rfl, id⟩
  have hlimit {name : Violation} {size wider x : Double} (hsize : size.isFinite = true)
      (hwider : wider.isFinite = true) (hle : size.units ≤ wider.units) :
      Violation.Relaxes (name, decide (wider < x)) (name, decide (size < x)) := by
    refine ⟨rfl, fun hx => ?_⟩
    rw [decide_eq_true_eq] at hx ⊢
    exact Double.lt_of_units_le hsize hwider hle hx
  cases h with
  | rectangular hx hy hz =>
    obtain ⟨hbedX, hbedY, hbedZ⟩ := hbed
    obtain ⟨hlargerX, hlargerY, hlargerZ⟩ := hlarger
    exact .cons (hsame _) (.cons (hsame _) (.cons (hsame _) (.cons (hlimit hbedX hlargerX hx)
      (.cons (hlimit hbedY hlargerY hy) (.cons (hlimit hbedZ hlargerZ hz) .nil)))))
  | cylindrical hradius hz =>
    obtain ⟨hbedRadius, hbedZ⟩ := hbed
    obtain ⟨hlargerRadius, hlargerZ⟩ := hlarger
    exact .cons (hlimit hbedRadius hlargerRadius hradius) (.cons (hsame _)
      (.cons (hlimit hbedZ hlargerZ hz) .nil))

variable (h : bed.FitsIn larger) (hbed : bed.IsFinite) (hlarger : larger.IsFinite)
include h hbed hlarger

/-- **A point** breaks no limit of the larger bed that it does not break of the bed. -/
theorem violations_sublist (point : Point) :
    (larger.violations point).Sublist (bed.violations point) :=
  Violation.sublist_of_relaxes (h.relaxes_limits hbed hlarger point)

theorem reaches_of_reaches (point : Point) (hreach : bed.reaches point = true) :
    larger.reaches point = true := by
  have hnone : bed.violations point = [] := List.isEmpty_iff.mp hreach
  have hsub := h.violations_sublist hbed hlarger point
  rw [hnone, List.sublist_nil] at hsub
  exact List.isEmpty_iff.mpr hsub

/-- **A segment** that the tool can follow on a bed it can follow on the larger one. -/
theorem reachesSegment_of_reachesSegment (a b : Point) (hreach : bed.reachesSegment a b = true) :
    larger.reachesSegment a b = true := by
  have hreaches := h.reaches_of_reaches hbed hlarger
  unfold Bed.reachesSegment at hreach ⊢
  rw [Bool.and_eq_true, Bool.and_eq_true] at hreach ⊢
  obtain ⟨⟨ha, hb⟩, hbetween⟩ := hreach
  refine ⟨⟨hreaches a ha, hreaches b hb⟩, ?_⟩
  cases h with
  | rectangular hx hy hz => exact hreaches (a.midpoint b) hbetween
  | cylindrical hradius hz => rfl

/-! ## Diagnostics -/

theorem badPoints_sublist (paths : List Path) :
    (larger.diagnose paths).badPoints.Sublist (bed.diagnose paths).badPoints := by
  rw [badPoints_diagnose, badPoints_diagnose]
  apply List.monotone_filter_right
  intro point hpoint
  rw [Bool.not_eq_true', ← Bool.not_eq_true] at hpoint ⊢
  exact fun hreach => hpoint (h.reaches_of_reaches hbed hlarger point hreach)

theorem badSegments_sublist (paths : List Path) :
    (larger.diagnose paths).badSegments.Sublist (bed.diagnose paths).badSegments := by
  have hfilter (bed : Bed) : (bed.diagnose paths).badSegments =
      (paths.flatMap Path.segments).filter fun segment =>
        !bed.reachesSegment segment.1 segment.2 := by
    rw [List.filter_flatMap]
    rfl
  rw [hfilter, hfilter]
  apply List.monotone_filter_right
  intro segment hsegment
  rw [Bool.not_eq_true', ← Bool.not_eq_true] at hsegment ⊢
  exact fun hreach => hsegment (h.reachesSegment_of_reachesSegment hbed hlarger _ _ hreach)

end FitsIn

/-- **A larger bed adds no violation.**  Every point breaks some of the limits that it broke before,
in the same order; of the points and the segments that were out of reach some are left, in the same
order; and there are no more violations than before. -/
theorem diagnose_fitsIn (h : bed.FitsIn larger) (hbed : bed.IsFinite) (hlarger : larger.IsFinite) :
    (∀ point, (larger.violations point).Sublist (bed.violations point)) ∧
    ∀ paths : List Path,
      (larger.diagnose paths).badPoints.Sublist (bed.diagnose paths).badPoints ∧
      (larger.diagnose paths).badSegments.Sublist (bed.diagnose paths).badSegments ∧
      (larger.diagnose paths).violationCount ≤ (bed.diagnose paths).violationCount := by
  refine ⟨h.violations_sublist hbed hlarger, fun paths => ?_⟩
  have hpoints := h.badPoints_sublist hbed hlarger paths
  refine ⟨hpoints, h.badSegments_sublist hbed hlarger paths, ?_⟩
  have hcount (bed : Bed) :
      (bed.diagnose paths).violationCount = (bed.diagnose paths).badPoints.length :=
    (List.length_map _).symm
  rw [hcount, hcount]
  exact hpoints.length_le

/-- A path that leaves a bed on two sides. -/
def leavingPath : Path := [⟨-1, 0, 301⟩, ⟨350, 0, 0⟩, ⟨0, 0, 0⟩]

/-- In a wider and higher bed the second point is in reach, and the first one breaks one limit
instead of two. -/
theorem diagnose_fitsIn_leavingPath :
    (rectangular 300 300 300).FitsIn (rectangular 400 300 301) ∧
      (rectangular 300 300 300).IsFinite ∧ (rectangular 400 300 301).IsFinite ∧
      ((rectangular 300 300 300).diagnose [leavingPath]).violationCount = 2 ∧
      ((rectangular 400 300 301).diagnose [leavingPath]).badPoints.Sublist
        [⟨-1, 0, 301⟩, ⟨350, 0, 0⟩] ∧
      ((rectangular 400 300 301).violations ⟨-1, 0, 301⟩).Sublist [.belowX, .beyondZ] := by
  have hfits : (rectangular 300 300 300).FitsIn (rectangular 400 300 301) := by
    constructor <;> decide +kernel
  have hbed : (rectangular 300 300 300).IsFinite := by
    refine ⟨?_, ?_, ?_⟩ <;> decide +kernel
  have hlarger : (rectangular 400 300 301).IsFinite := by
    refine ⟨?_, ?_, ?_⟩ <;> decide +kernel
  have hpoints : ((rectangular 300 300 300).diagnose [leavingPath]).badPoints =
      [⟨-1, 0, 301⟩, ⟨350, 0, 0⟩] := by
    decide +kernel
  have hlimits : (rectangular 300 300 300).violations ⟨-1, 0, 301⟩ = [.belowX, .beyondZ] := by
    decide +kernel
  obtain ⟨hviolations, hlists⟩ := diagnose_fitsIn hfits hbed hlarger
  refine ⟨hfits, hbed, hlarger, by decide +kernel, ?_, ?_⟩
  · rw [← hpoints]
    exact (hlists [leavingPath]).1
  · rw [← hlimits]
    exact hviolations ⟨-1, 0, 301⟩

end Bed
end Toolpath
