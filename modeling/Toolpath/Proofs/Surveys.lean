import Toolpath.Proofs.Compiling
import Toolpath.Proofs.SoundProfiles
import Toolpath.Proofs.WholeNumbers

/-! # Surveys

A survey runs through paths one after another and writes down what it finds: point by point what is
out of reach, then pair by pair what the tool cannot follow.  The lists it fills stay aligned, and
what they hold in the end is what the diagnostics report (`Survey.run_eq`).

The limits of a box are exact numbers.  Those of a cylinder are too, but for the distance from its
axis, which is compared as it is computed; the computation may put a point that stands on the rim
beyond it (`Bed.not_forall_status_iff_encloses`).
-/
namespace Toolpath

/-! ## Limits -/

/-- Finite doubles are compared by their exact values. -/
theorem Double.lt_iff_units_lt {x y : Double} (hx : x.isFinite = true) (hy : y.isFinite = true) :
    x < y ↔ x.units < y.units := by
  cases x with
  | nan => cases hx
  | infinite negative => cases hx
  | finite negative size =>
    cases y with
    | nan => cases hy
    | infinite negative => cases hy
    | finite other limit => exact decide_eq_true_iff

theorem Double.lt_zero_iff {x : Double} (h : x.isFinite = true) : x < 0 ↔ x.units < 0 := by
  rw [lt_iff_units_lt h (by rw [ofNat_zero]; rfl), ofNat_zero]
  rfl

/-- A point of finite coordinates. -/
structure Point.IsFinite (point : Point) : Prop where
  x : point.x.isFinite = true
  y : point.y.isFinite = true
  z : point.z.isFinite = true

namespace Bed

/-- The limits of a bed in the order in which it judges them. -/
def order : Bed → List Violation
  | rectangular _ _ _ => [.belowX, .belowY, .belowZ, .beyondX, .beyondY, .beyondZ]
  | cylindrical _ _ => [.beyondRadius, .belowZ, .beyondZ]

/-- What it is to break a limit, in exact numbers.  The distance from the axis of a cylinder is the
one that is computed. -/
def Breaks : Bed → Point → Violation → Prop
  | _, point, .belowX => point.x.units < 0
  | _, point, .belowY => point.y.units < 0
  | _, point, .belowZ => point.z.units < 0
  | rectangular maxX _ _, point, .beyondX => maxX.units < point.x.units
  | rectangular _ maxY _, point, .beyondY => maxY.units < point.y.units
  | rectangular _ _ maxZ, point, .beyondZ => maxZ.units < point.z.units
  | cylindrical _ maxZ, point, .beyondZ => maxZ.units < point.z.units
  | cylindrical radius _, point, .beyondRadius => radius < .length [point.x, point.y]
  | _, _, _ => False

/-- The points that break no limit. -/
def Contains : Bed → Point → Prop
  | rectangular maxX maxY maxZ, point =>
    (0 ≤ point.x.units ∧ point.x.units ≤ maxX.units) ∧
      (0 ≤ point.y.units ∧ point.y.units ≤ maxY.units) ∧
      (0 ≤ point.z.units ∧ point.z.units ≤ maxZ.units)
  | cylindrical radius maxZ, point =>
    ¬radius < .length [point.x, point.y] ∧ (0 ≤ point.z.units ∧ point.z.units ≤ maxZ.units)

variable {bed : Bed} {point : Point}

theorem violations_sublist (bed : Bed) (point : Point) :
    (bed.violations point).Sublist bed.order := by
  have hlimits : (bed.limits point).map (·.1) = bed.order := by cases bed <;> rfl
  rw [violations, ← hlimits]
  exact List.filter_sublist.map _

theorem mem_violations {limit : Violation} :
    limit ∈ bed.violations point ↔ (limit, true) ∈ bed.limits point := by
  simp [violations]

/-- **The limits that a point breaks** are those of the bed that it exceeds. -/
theorem mem_violations_iff (hbed : bed.IsFinite) (hpoint : point.IsFinite) (limit : Violation) :
    limit ∈ bed.violations point ↔ limit ∈ bed.order ∧ bed.Breaks point limit := by
  rw [mem_violations]
  cases bed with
  | rectangular maxX maxY maxZ =>
    obtain ⟨hx, hy, hz⟩ := hbed
    cases limit <;>
      simp [limits, order, Breaks, Double.lt_zero_iff, Double.lt_iff_units_lt, hpoint.x, hpoint.y,
        hpoint.z, hx, hy, hz]
  | cylindrical radius maxZ =>
    obtain ⟨hradius, hz⟩ := hbed
    cases limit <;>
      simp [limits, order, Breaks, Double.lt_zero_iff, Double.lt_iff_units_lt, hpoint.z, hz]

/-- A point is in reach exactly where the bed contains it. -/
theorem reaches_iff_contains (hbed : bed.IsFinite) (hpoint : point.IsFinite) :
    bed.reaches point = true ↔ bed.Contains point := by
  rw [reaches, List.isEmpty_iff, List.eq_nil_iff_forall_not_mem]
  simp only [mem_violations_iff hbed hpoint]
  cases bed with
  | rectangular maxX maxY maxZ =>
    simp [order, Breaks, Contains]
    omega
  | cylindrical radius maxZ => simp [order, Breaks, Contains]

end Bed

/-! ## Going through paths -/

/-- What has been written down. -/
structure Survey where
  badPoints : List Point
  warnings : List PointWarning
  badSegments : List Segment

namespace Survey
variable (bed : Bed)

/-- Before the first path. -/
def start : Survey := { badPoints := [], warnings := [], badSegments := [] }

/-- A point is looked at. -/
def visit (survey : Survey) (point : Point) : Survey :=
  if bed.reaches point then survey
  else { survey with
    badPoints := survey.badPoints ++ [point]
    warnings := survey.warnings ++ [{ reasons := bed.violations point, point }] }

/-- A pair of points that follow each other is looked at. -/
def cross (survey : Survey) (a b : Point) : Survey :=
  if bed.reachesSegment a b then survey
  else { survey with badSegments := survey.badSegments ++ [(a, b)] }

/-- All pairs of a path. -/
def crossAll (survey : Survey) : Path → Survey
  | a :: b :: rest => crossAll (survey.cross bed a b) (b :: rest)
  | _ => survey

/-- A whole path: first its points, then its pairs. -/
def follow (survey : Survey) (path : Path) : Survey :=
  (path.foldl (visit bed) survey).crossAll bed path

/-- All paths. -/
def run (paths : List Path) : Survey := paths.foldl (follow bed) start

variable {bed}

/-- The points of a path add to two lists, in step. -/
theorem foldl_visit_eq (path : Path) (survey : Survey) :
    path.foldl (visit bed) survey = { survey with
      badPoints := survey.badPoints ++ path.filter fun point => !bed.reaches point
      warnings := survey.warnings ++ path.filterMap bed.warning? } := by
  induction path generalizing survey with
  | nil => simp
  | cons point path ih =>
    rw [List.foldl_cons, ih]
    by_cases h : bed.reaches point = true <;> simp [visit, Bed.warning?, h]

/-- The pairs of a path add to the third. -/
theorem crossAll_eq (path : Path) (survey : Survey) :
    survey.crossAll bed path = { survey with
      badSegments := survey.badSegments ++
        path.segments.filter fun segment => !bed.reachesSegment segment.1 segment.2 } := by
  induction path generalizing survey with
  | nil => simp [crossAll, Path.segments]
  | cons a path ih =>
    cases path with
    | nil => simp [crossAll, Path.segments]
    | cons b rest =>
      have hsegments : Path.segments (a :: b :: rest) = (a, b) :: Path.segments (b :: rest) := rfl
      rw [crossAll, ih, hsegments]
      by_cases h : bed.reachesSegment a b = true <;> simp [cross, h]

/-- **One path** adds what is wrong with it and touches nothing that was written down before. -/
theorem follow_eq (path : Path) (survey : Survey) :
    survey.follow bed path =
      { badPoints := survey.badPoints ++ path.filter fun point => !bed.reaches point
        warnings := survey.warnings ++ path.filterMap bed.warning?
        badSegments := survey.badSegments ++
          path.segments.filter fun segment => !bed.reachesSegment segment.1 segment.2 } := by
  rw [follow, crossAll_eq, foldl_visit_eq]

/-- From any survey on, all paths add what is wrong with each of them, in order. -/
theorem foldl_follow_eq (paths : List Path) (survey : Survey) :
    paths.foldl (follow bed) survey =
      { badPoints := survey.badPoints ++ paths.flatten.filter fun point => !bed.reaches point
        warnings := survey.warnings ++ (bed.diagnose paths).warnings
        badSegments := survey.badSegments ++ (bed.diagnose paths).badSegments } := by
  induction paths generalizing survey with
  | nil => simp [Bed.diagnose]
  | cons path paths ih =>
    rw [List.foldl_cons, ih, follow_eq]
    simp [Bed.diagnose]

end Survey

/-! ## Diagnostics -/

/-- The segments of a path are the points that follow each other in it. -/
theorem Path.getElem?_segments {path : Path} {i : Nat} {segment : Segment} :
    path.segments[i]? = some segment ↔
      path[i]? = some segment.1 ∧ path[i + 1]? = some segment.2 := by
  obtain ⟨a, b⟩ := segment
  rw [segments, List.getElem?_zip_eq_some, List.getElem?_tail]

theorem Bed.map_point_warnings (bed : Bed) (points : List Point) :
    (points.filterMap bed.warning?).map (·.point) =
      points.filter fun point => !bed.reaches point := by
  induction points with
  | nil => rfl
  | cons point points ih => by_cases h : bed.reaches point = true <;> simp [warning?, h, ih]

theorem Bed.warnings_diagnose (bed : Bed) (paths : List Path) :
    (bed.diagnose paths).warnings = paths.flatten.filterMap bed.warning? := by
  rw [diagnose, List.filterMap_flatten, List.flatMap_def]

theorem Bed.badPoints_diagnose (bed : Bed) (paths : List Path) :
    (bed.diagnose paths).badPoints = paths.flatten.filter fun point => !bed.reaches point := by
  rw [Diagnostics.badPoints, warnings_diagnose, map_point_warnings]

/-- **A survey finds what the diagnostics report.** -/
theorem Survey.run_eq (bed : Bed) (paths : List Path) :
    run bed paths = {
      badPoints := (bed.diagnose paths).badPoints
      warnings := (bed.diagnose paths).warnings
      badSegments := (bed.diagnose paths).badSegments } := by
  rw [run, foldl_follow_eq, Bed.badPoints_diagnose]
  rfl

/-- A status that is not good gives the number of points out of reach. -/
theorem Diagnostics.status_eq_of_ne {diagnostics : Diagnostics}
    (h : diagnostics.status ≠ statusOk) : diagnostics.status =
      "Out of bounds: " ++ (Double.ofNat diagnostics.violationCount).shortestText ++
        " point(s)" := by
  have hcount : ¬diagnostics.violationCount = 0 :=
    fun hzero => h (status_eq_statusOk_iff.mpr hzero)
  rw [status, statusFor, if_neg fun hzero => hcount (Double.isZero_ofNat.mp hzero)]

/-- A warning gives every limit of a bed that its point breaks, in the order of the bed. -/
structure PointWarning.Describes (warning : PointWarning) (bed : Bed) : Prop where
  sublist : warning.reasons.Sublist bed.order
  mem_iff : ∀ limit, limit ∈ warning.reasons ↔
    limit ∈ bed.order ∧ bed.Breaks warning.point limit
  text_eq : warning.text = String.intercalate ", " (warning.reasons.map Violation.text)

/-- Diagnostics that report what is wrong with some paths on a bed, and nothing else. -/
structure Diagnostics.Reports (diagnostics : Diagnostics) (bed : Bed) (paths : List Path) :
    Prop where
  badPoints : diagnostics.badPoints = paths.flatten.filter fun point => !bed.reaches point
  length_warnings : diagnostics.warnings.length = diagnostics.badPoints.length
  warning : ∀ (i : Nat) (warning : PointWarning), diagnostics.warnings[i]? = some warning →
    diagnostics.badPoints[i]? = some warning.point ∧ warning.Describes bed
  badSegments : diagnostics.badSegments = paths.flatMap fun path =>
    path.segments.filter fun segment => !bed.reachesSegment segment.1 segment.2
  mem_badSegments : ∀ segment, segment ∈ diagnostics.badSegments ↔
    ∃ path ∈ paths, ∃ i : Nat, path[i]? = some segment.1 ∧ path[i + 1]? = some segment.2 ∧
      bed.reachesSegment segment.1 segment.2 = false
  violationCount : diagnostics.violationCount = diagnostics.badPoints.length
  status_ok : diagnostics.status = statusOk ↔ ∀ path ∈ paths, ∀ point ∈ path, bed.Contains point
  status_bad : diagnostics.status ≠ statusOk → diagnostics.status =
    "Out of bounds: " ++ (Double.ofNat diagnostics.violationCount).shortestText ++ " point(s)"
  status_count : diagnostics.violationCount < 2 ^ 53 → diagnostics.status ≠ statusOk →
    diagnostics.status = "Out of bounds: " ++ toString diagnostics.violationCount ++ " point(s)"

namespace Bed
variable {bed : Bed} {paths : List Path}

theorem describes_of_mem_warnings (hbed : bed.IsFinite)
    (hpaths : ∀ path ∈ paths, ∀ point ∈ path, point.IsFinite) {warning : PointWarning}
    (h : warning ∈ (bed.diagnose paths).warnings) : warning.Describes bed := by
  rw [warnings_diagnose] at h
  obtain ⟨point, hpoint, hwarning⟩ := List.mem_filterMap.mp h
  obtain ⟨path, hpath, hpoint⟩ := List.mem_flatten.mp hpoint
  unfold warning? at hwarning
  split at hwarning
  · cases hwarning
  · cases hwarning
    exact ⟨bed.violations_sublist point,
      mem_violations_iff hbed (hpaths path hpath point hpoint), rfl⟩

theorem mem_badSegments_diagnose {segment : Segment} :
    segment ∈ (bed.diagnose paths).badSegments ↔
      ∃ path ∈ paths, ∃ i : Nat, path[i]? = some segment.1 ∧ path[i + 1]? = some segment.2 ∧
        bed.reachesSegment segment.1 segment.2 = false := by
  have hsegment (path : Path) : segment ∈ path.segments ↔
      ∃ i : Nat, path[i]? = some segment.1 ∧ path[i + 1]? = some segment.2 := by
    rw [List.mem_iff_getElem?]
    simp only [Path.getElem?_segments]
  simp only [diagnose, List.mem_flatMap, List.mem_filter, hsegment, Bool.not_eq_true',
    ← exists_and_right, and_assoc]

/-- No point is out of reach exactly where every point is contained in the bed. -/
theorem violationCount_eq_zero_iff (hbed : bed.IsFinite)
    (hpaths : ∀ path ∈ paths, ∀ point ∈ path, point.IsFinite) :
    (bed.diagnose paths).violationCount = 0 ↔
      ∀ path ∈ paths, ∀ point ∈ path, bed.Contains point := by
  have hcount : (bed.diagnose paths).violationCount = (bed.diagnose paths).badPoints.length := by
    rw [Diagnostics.violationCount, Diagnostics.badPoints, List.length_map]
  rw [hcount, List.length_eq_zero_iff, badPoints_diagnose, List.filter_eq_nil_iff]
  constructor
  · intro h path hpath point hpoint
    have hreach := h point (List.mem_flatten.mpr ⟨path, hpath, hpoint⟩)
    rw [Bool.not_eq_true', Bool.not_eq_false] at hreach
    exact (reaches_iff_contains hbed (hpaths path hpath point hpoint)).mp hreach
  · intro h point hpoint
    obtain ⟨path, hpath, hpoint⟩ := List.mem_flatten.mp hpoint
    rw [Bool.not_eq_true', Bool.not_eq_false]
    have hfinite := hpaths path hpath point hpoint
    exact (reaches_iff_contains hbed hfinite).mpr (h path hpath point hpoint)

/-- **The diagnostics report exactly what is wrong**, they are what a survey writes down, and those
of more paths are put together from those of each part. -/
theorem diagnose_reports (hbed : bed.IsFinite)
    (hpaths : ∀ path ∈ paths, ∀ point ∈ path, point.IsFinite) :
    (bed.diagnose paths).Reports bed paths ∧
    Survey.run bed paths = {
      badPoints := (bed.diagnose paths).badPoints
      warnings := (bed.diagnose paths).warnings
      badSegments := (bed.diagnose paths).badSegments } ∧
    ∀ more : List Path,
      (bed.diagnose (paths ++ more)).badPoints =
        (bed.diagnose paths).badPoints ++ (bed.diagnose more).badPoints ∧
      (bed.diagnose (paths ++ more)).warnings =
        (bed.diagnose paths).warnings ++ (bed.diagnose more).warnings ∧
      (bed.diagnose (paths ++ more)).badSegments =
        (bed.diagnose paths).badSegments ++ (bed.diagnose more).badSegments ∧
      (bed.diagnose (paths ++ more)).violationCount =
        (bed.diagnose paths).violationCount + (bed.diagnose more).violationCount := by
  refine ⟨?_, Survey.run_eq bed paths, fun more => ?_⟩
  · exact {
      badPoints := bed.badPoints_diagnose paths
      length_warnings := (List.length_map _).symm
      warning := fun i warning hwarning => by
        refine ⟨?_, describes_of_mem_warnings hbed hpaths (List.mem_of_getElem? hwarning)⟩
        rw [Diagnostics.badPoints, List.getElem?_map, hwarning, Option.map_some]
      badSegments := rfl
      mem_badSegments := fun _ => mem_badSegments_diagnose
      violationCount := (List.length_map _).symm
      status_ok := by
        rw [Diagnostics.status_eq_statusOk_iff, violationCount_eq_zero_iff hbed hpaths]
      status_bad := Diagnostics.status_eq_of_ne
      status_count := fun hcount hbad => by
        rw [Diagnostics.status_eq_of_ne hbad, Double.shortestText_ofNat hcount] }
  · rw [diagnose_append]
    exact ⟨List.map_append, rfl, rfl, List.length_append⟩

/-- A path with a point that is out of reach twice in a row, an empty path, one of a single point
that is out of reach, and one from corner to corner. -/
def surveyedPaths : List Path :=
  [[⟨0, 0, 0⟩, ⟨400, 0, -1⟩, ⟨400, 0, -1⟩], [], [⟨500, 0, 0⟩], [⟨0, 0, 0⟩, ⟨300, 300, 300⟩]]

theorem diagnose_reports_surveyedPaths :
    (rectangular 300 300 300).IsFinite ∧
      (∀ path ∈ surveyedPaths, ∀ point ∈ path, point.IsFinite) ∧
      ((rectangular 300 300 300).diagnose surveyedPaths).Reports (rectangular 300 300 300)
        surveyedPaths ∧
      ((rectangular 300 300 300).diagnose surveyedPaths).badPoints =
        [⟨400, 0, -1⟩, ⟨400, 0, -1⟩, ⟨500, 0, 0⟩] ∧
      ((rectangular 300 300 300).diagnose surveyedPaths).badSegments =
        [(⟨0, 0, 0⟩, ⟨400, 0, -1⟩), (⟨400, 0, -1⟩, ⟨400, 0, -1⟩)] := by
  have hbed : (rectangular 300 300 300).IsFinite := by
    obtain ⟨hx, hy, hz, -⟩ := BedSize.isFinite_defaults
    exact ⟨hx, hy, hz⟩
  have hfinite : surveyedPaths.all (·.all fun point =>
      point.x.isFinite && point.y.isFinite && point.z.isFinite) = true := by
    decide +kernel
  have hpaths : ∀ path ∈ surveyedPaths, ∀ point ∈ path, point.IsFinite := by
    intro path hpath point hpoint
    have hpoint := List.all_eq_true.mp (List.all_eq_true.mp hfinite path hpath) point hpoint
    rw [Bool.and_eq_true, Bool.and_eq_true] at hpoint
    exact ⟨hpoint.1.1, hpoint.1.2, hpoint.2⟩
  exact ⟨hbed, hpaths, (diagnose_reports hbed hpaths).1, by decide +kernel, by decide +kernel⟩

/-! ## The rim of a cylinder -/

/-- The points that the sizes of a bed span.  Those of a cylinder are told by their exact distance
from its axis. -/
def Encloses : Bed → Point → Prop
  | rectangular maxX maxY maxZ, point => (rectangular maxX maxY maxZ).Contains point
  | cylindrical radius maxZ, point =>
    (0 ≤ radius.units ∧ point.x.units ^ 2 + point.y.units ^ 2 ≤ radius.units ^ 2) ∧
      (0 ≤ point.z.units ∧ point.z.units ≤ maxZ.units)

/-- A point on the rim of a cylinder is found out of reach: 35 and 120 are the legs of a right
triangle with the hypotenuse 125, but the length that is computed is larger. -/
theorem not_forall_status_iff_encloses :
    ¬∀ (bed : Bed) (paths : List Path), bed.IsFinite →
      (∀ path ∈ paths, ∀ point ∈ path, point.IsFinite) →
      ((bed.diagnose paths).status = statusOk ↔
        ∀ path ∈ paths, ∀ point ∈ path, bed.Encloses point) := by
  intro h
  have hbed : (cylindrical 125 300).IsFinite := by
    constructor <;> decide +kernel
  have hpoint : (⟨35, 120, 0⟩ : Point).IsFinite := by
    constructor <;> decide +kernel
  have hencloses : (cylindrical 125 300).Encloses ⟨35, 120, 0⟩ := by
    refine ⟨⟨?_, ?_⟩, ?_, ?_⟩ <;> decide +kernel
  have hcount : ((cylindrical 125 300).diagnose [[⟨35, 120, 0⟩]]).violationCount = 1 := by
    decide +kernel
  have hok := (h (cylindrical 125 300) [[⟨35, 120, 0⟩]] hbed
    (by simpa only [List.mem_singleton, forall_eq] using hpoint)).mpr
    (by simpa only [List.mem_singleton, forall_eq] using hencloses)
  rw [Diagnostics.status_eq_statusOk_iff, hcount] at hok
  exact one_ne_zero hok

end Bed
end Toolpath
