import Toolpath.Proofs.PlaneLengths

/-! # Symmetries

What is found out of reach does not depend on the direction of travel.  A sum of doubles has the
same bits in either order (`Double.add_comm`), so the point halfway is the same from both ends of a
segment, and a path that is run backwards has the same points and segments the other way round
(`Bed.diagnose_map_reverse`).

A length depends on the sizes of its components only (`Double.length_congr`), and that of two
components not on their order either: both orders round the same number
(`Double.length_pair_comm`).  So a cylinder looks the same across its axis, across its diagonal and
from either side, to the last bit (`Bed.verdict_cylindrical_symmetric`).
-/
namespace Toolpath

/-! ## Arithmetic in either order -/

namespace Double

/-- **A sum is the same in either order**, the sign of a zero included. -/
protected theorem add_comm (x y : Double) : x + y = y + x := by
  change add x y = add y x
  cases x with
  | nan => cases y <;> rfl
  | infinite a =>
    cases y with
    | nan => rfl
    | infinite b => cases a <;> cases b <;> rfl
    | finite b n => rfl
  | finite a m =>
    cases y with
    | nan => rfl
    | infinite b => rfl
    | finite b n =>
      dsimp only [add]
      rw [Int.add_comm, Bool.and_comm]

/-- The size of what is rounded does not depend on its sign. -/
theorem abs_ofRatio (negative : Bool) (num den : ℕ) :
    (ofRatio negative num den).abs = ofRatio false num den := by
  unfold ofRatio
  dsimp only
  split <;> rfl

/-- A difference has the same size from either side. -/
protected theorem abs_sub_comm (x y : Double) : (x - y).abs = (y - x).abs := by
  change (add x (neg y)).abs = (add y (neg x)).abs
  cases x with
  | nan => cases y <;> rfl
  | infinite a =>
    cases y with
    | nan => rfl
    | infinite b => cases a <;> cases b <;> rfl
    | finite b n => rfl
  | finite a m =>
    cases y with
    | nan => rfl
    | infinite b => rfl
    | finite b n =>
      have hunits (negative : Bool) (size : Magnitude) :
          (finite (!negative) size).units = -(finite negative size).units :=
        units_neg (finite negative size)
      dsimp only [add, neg]
      rw [abs_ofRatio, abs_ofRatio, hunits, hunits]
      congr 1
      omega

theorem abs_neg (x : Double) : (-x).abs = x.abs := by
  cases x <;> rfl

/-! ## Lengths -/

/-- **A length depends on the sizes of its components only.** -/
theorem length_congr {components others : List Double}
    (h : components.map abs = others.map abs) : length components = length others := by
  unfold length
  rw [h]

/-- What is rounded to something other than zero is rounded to one double. -/
theorem Rounds.unique {x y : Double} {num : ℤ} {den : ℕ} (hx : x.Rounds num den)
    (hy : y.Rounds num den) (hne : roundQuotient num den ≠ 0) : x = y := by
  have hsize : (roundQuotient num den).natAbs = nearestUnits num.natAbs den := natAbs_signed _ _
  cases hx with
  | finite hfinite hunits =>
    cases hy with
    | finite hfinite' hunits' =>
      exact eq_of_units_eq hfinite hfinite' (hunits.trans hunits'.symm) (by rwa [hunits])
    | infinite hover =>
      have hfits := x.representable_units.2
      rw [hunits, hsize] at hfits
      omega
  | infinite hover =>
    cases hy with
    | finite hfinite hunits =>
      have hfits := y.representable_units.2
      rw [hunits, hsize] at hfits
      omega
    | infinite _ => rfl

/-- The length of two components is at least the larger of them. -/
theorem unitsPerOne_le_shareRoot (n largest : ℕ) : unitsPerOne ≤ shareRoot n largest := by
  have hsum : unitsPerOne ≤ nearestUnits (unitsPerOne + shareSquare n largest) 1 :=
    le_nearestUnits Nat.one_pos onGrid_unitsPerOne (by omega)
  rw [shareRoot]
  generalize nearestUnits (unitsPerOne + shareSquare n largest) 1 = sum at hsum
  have hroot : unitsPerOne ≤ (sum * unitsPerOne).sqrt :=
    Nat.le_sqrt.mpr (Nat.mul_le_mul_right _ hsum)
  refine le_nearestUnits two_pos onGrid_unitsPerOne ?_
  unfold doubledRoot
  dsimp only
  split <;> omega

/-- **The length of two components** is the same in either order. -/
theorem length_pair_comm (x y : Double) : length [x, y] = length [y, x] := by
  by_cases hfinite : x.isFinite = true ∧ y.isFinite = true
  · obtain ⟨hx, hy⟩ := hfinite
    rcases Nat.eq_zero_or_pos (Max.max x.units.natAbs y.units.natAbs) with hzero | hpos
    · rw [length_pair_of_zero hx hy hzero, length_pair_of_zero hy hx (by rwa [max_comm])]
    · -- both orders round the same product, which is not below the larger component
      have hforth := rounds_length_pair hx hy hpos
      have hback := rounds_length_pair hy hx (by rwa [max_comm])
      rw [min_comm, max_comm] at hback
      generalize Max.max x.units.natAbs y.units.natAbs = largest at hpos hforth hback
      refine hforth.unique hback ?_
      have hroot := unitsPerOne_le_shareRoot (min x.units.natAbs y.units.natAbs) largest
      have hone : 1 ≤ nearestUnits
          (shareRoot (min x.units.natAbs y.units.natAbs) largest * largest) unitsPerOne := by
        refine le_nearestUnits unitsPerOne_pos (onGrid_of_le (by decide)) ?_
        rw [Nat.mul_comm 1]
        exact Nat.mul_le_mul hroot hpos
      rw [roundQuotient_natCast]
      omega
  · cases x with
    | nan => cases y <;> rfl
    | infinite a => cases y <;> rfl
    | finite a m =>
      cases y with
      | nan => rfl
      | infinite b => rfl
      | finite b n => exact absurd ⟨rfl, rfl⟩ hfinite

end Double

/-! ## The other direction -/

namespace Point

/-- The point halfway is the same from both ends. -/
theorem midpoint_comm (a b : Point) : a.midpoint b = b.midpoint a := by
  rw [midpoint, midpoint, a.x.add_comm, a.y.add_comm, a.z.add_comm]

/-- The way back is as long as the way there. -/
theorem distance_comm (a b : Point) : a.distance b = b.distance a := by
  refine Double.length_congr ?_
  simp only [List.map_cons, List.map_nil, Double.abs_sub_comm b.x, Double.abs_sub_comm b.y,
    Double.abs_sub_comm b.z]

end Point

namespace Path

theorem segments_eq_zip_dropLast (path : Path) : path.segments = path.dropLast.zip path.tail := by
  induction path with
  | nil => rfl
  | cons a rest ih =>
    cases rest with
    | nil => rfl
    | cons b rest => exact congrArg ((a, b) :: ·) ih

/-- The segments of a path that is run backwards, each from its other end. -/
theorem segments_reverse (path : Path) :
    segments path.reverse = path.segments.reverse.map Prod.swap := by
  have hlength : path.dropLast.length = path.tail.length := by
    rw [List.length_dropLast, List.length_tail]
  have hzip : (path.dropLast.zip path.tail).reverse =
      path.dropLast.reverse.zip path.tail.reverse := List.reverse_zipWith hlength
  calc segments path.reverse = path.tail.reverse.zip path.dropLast.reverse := by
        rw [segments_eq_zip_dropLast, List.dropLast_reverse, List.tail_reverse]
    _ = (path.dropLast.reverse.zip path.tail.reverse).map Prod.swap := (List.zip_swap _ _).symm
    _ = path.segments.reverse.map Prod.swap := by rw [← hzip, segments_eq_zip_dropLast]

end Path

namespace Diagnostics

/-- Diagnostics put together in order. -/
def join (parts : List Diagnostics) : Diagnostics where
  warnings := parts.flatMap (·.warnings)
  badSegments := parts.flatMap (·.badSegments)

/-- What is found on the way back along a path: the same points in the opposite order, and each
segment from its other end. -/
def backwards (diagnostics : Diagnostics) : Diagnostics where
  warnings := diagnostics.warnings.reverse
  badSegments := diagnostics.badSegments.reverse.map Prod.swap

@[simp] theorem violationCount_backwards (diagnostics : Diagnostics) :
    diagnostics.backwards.violationCount = diagnostics.violationCount :=
  List.length_reverse

theorem badPoints_backwards (diagnostics : Diagnostics) :
    diagnostics.backwards.badPoints = diagnostics.badPoints.reverse :=
  List.map_reverse

theorem violationCount_join (parts : List Diagnostics) :
    (join parts).violationCount = (parts.map violationCount).sum :=
  List.length_flatMap

theorem badPoints_join (parts : List Diagnostics) :
    (join parts).badPoints = parts.flatMap badPoints :=
  List.map_flatMap

end Diagnostics

namespace Bed
variable (bed : Bed)

/-- A segment can be followed from both ends or from none. -/
theorem reachesSegment_comm (a b : Point) : bed.reachesSegment a b = bed.reachesSegment b a := by
  unfold reachesSegment
  rw [Bool.and_comm (bed.reaches a), a.midpoint_comm b]

/-- Paths are diagnosed one by one. -/
theorem diagnose_eq_join (paths : List Path) :
    bed.diagnose paths = .join (paths.map fun path => bed.diagnose [path]) := by
  simp only [diagnose, Diagnostics.join, List.flatMap_map, List.flatMap_singleton]

/-- **One path** that is run backwards. -/
theorem diagnose_reverse (path : Path) :
    bed.diagnose [path.reverse] = (bed.diagnose [path]).backwards := by
  have hfollow : (fun segment : Segment => !bed.reachesSegment segment.1 segment.2) ∘ Prod.swap =
      fun segment => !bed.reachesSegment segment.1 segment.2 :=
    funext fun segment => congrArg (!·) (bed.reachesSegment_comm segment.2 segment.1)
  simp only [diagnose, Diagnostics.backwards, List.flatMap_singleton]
  rw [List.filterMap_reverse, Path.segments_reverse, List.filter_map, hfollow,
    List.filter_reverse]

/-- **The direction of travel does not matter.**  Paths that are run backwards have as many points
out of reach and the same status.  What is found is put together path by path, and on each path it
is what was found before from its other end: the points and their warnings in the opposite order,
and so the segments, with their two ends swapped. -/
theorem diagnose_map_reverse (paths : List Path) :
    (bed.diagnose (paths.map List.reverse)).violationCount = (bed.diagnose paths).violationCount ∧
    (bed.diagnose (paths.map List.reverse)).status = (bed.diagnose paths).status ∧
    bed.diagnose paths = .join (paths.map fun path => bed.diagnose [path]) ∧
    bed.diagnose (paths.map List.reverse) =
      .join (paths.map fun path => (bed.diagnose [path]).backwards) ∧
    (bed.diagnose (paths.map List.reverse)).badPoints =
      paths.flatMap fun path => (bed.diagnose [path]).badPoints.reverse := by
  have hback : bed.diagnose (paths.map List.reverse) =
      .join (paths.map fun path => (bed.diagnose [path]).backwards) := by
    rw [diagnose_eq_join, List.map_map]
    exact congrArg _ (List.map_congr_left fun path _ => bed.diagnose_reverse path)
  have hcount : (bed.diagnose (paths.map List.reverse)).violationCount =
      (bed.diagnose paths).violationCount := by
    rw [hback, bed.diagnose_eq_join paths, Diagnostics.violationCount_join,
      Diagnostics.violationCount_join, List.map_map, List.map_map]
    simp only [Function.comp_def, Diagnostics.violationCount_backwards]
  refine ⟨hcount, ?_, bed.diagnose_eq_join paths, hback, ?_⟩
  · rw [Diagnostics.status, Diagnostics.status, hcount]
  · rw [hback, Diagnostics.badPoints_join, List.flatMap_map]
    simp only [Diagnostics.badPoints_backwards]

/-! ## Around the axis -/

/-- What a bed says of a point: whether the point is in reach, and the limits it breaks. -/
def verdict (point : Point) : Bool × List Violation := (bed.reaches point, bed.violations point)

/-- A cylinder judges points alike that have the same height and a distance from the axis that is
computed to be the same. -/
theorem verdict_cylindrical_congr {radius maxZ : Double} {point other : Point}
    (hlength : Double.length [point.x, point.y] = .length [other.x, other.y])
    (hz : point.z = other.z) :
    (cylindrical radius maxZ).verdict point = (cylindrical radius maxZ).verdict other := by
  have hlimits : (cylindrical radius maxZ).limits point =
      (cylindrical radius maxZ).limits other := by
    rw [limits, limits, hlength, hz]
  rw [verdict, verdict, reaches, reaches, violations, violations, hlimits]

/-- **A cylinder has the symmetries of a circle**, to the last bit: it judges a point as it judges
the point on the other side of the diagonal or of an axis.  And the distance of two points is the
same double from both of them, whether or not a difference of coordinates overflows. -/
theorem verdict_cylindrical_symmetric :
    (∀ radius maxZ x y z : Double,
      (cylindrical radius maxZ).verdict ⟨y, x, z⟩ = (cylindrical radius maxZ).verdict ⟨x, y, z⟩ ∧
      (cylindrical radius maxZ).verdict ⟨-x, y, z⟩ = (cylindrical radius maxZ).verdict ⟨x, y, z⟩ ∧
      (cylindrical radius maxZ).verdict ⟨x, -y, z⟩ =
        (cylindrical radius maxZ).verdict ⟨x, y, z⟩) ∧
    ∀ a b : Point, a.distance b = b.distance a := by
  refine ⟨fun radius maxZ x y z => ⟨?_, ?_, ?_⟩, Point.distance_comm⟩
  · exact verdict_cylindrical_congr (Double.length_pair_comm y x) rfl
  · refine verdict_cylindrical_congr (Double.length_congr ?_) rfl
    simp only [List.map_cons, List.map_nil, Double.abs_neg]
  · refine verdict_cylindrical_congr (Double.length_congr ?_) rfl
    simp only [List.map_cons, List.map_nil, Double.abs_neg]

end Bed
end Toolpath
