import Toolpath.Bed.Basic

/-! # Diagnostics

What is wrong with a list of paths on a bed: each point out of reach, with the limits it breaks, and
each segment the tool cannot follow, in the order in which the paths run through them.
-/
namespace Toolpath

/-- A point out of reach and the limits it breaks. -/
structure PointWarning where
  reasons : List Violation
  point : Point
  deriving DecidableEq

/-- The limits that are broken, in one line. -/
def PointWarning.text (warning : PointWarning) : String :=
  String.intercalate ", " (warning.reasons.map Violation.text)

/-- The points out of reach and the segments that cannot be followed. -/
structure Diagnostics where
  warnings : List PointWarning
  badSegments : List Segment
  deriving DecidableEq

/-- The status of paths without a violation. -/
def statusOk : String := "OK"

/-- The status of paths with a number of violations. -/
def statusFor (count : Double) : String :=
  if count.isZero then statusOk else "Out of bounds: " ++ count.shortestText ++ " point(s)"

namespace Diagnostics

def badPoints (diagnostics : Diagnostics) : List Point := diagnostics.warnings.map (·.point)

def violationCount (diagnostics : Diagnostics) : Nat := diagnostics.warnings.length

def status (diagnostics : Diagnostics) : String := statusFor (.ofNat diagnostics.violationCount)

end Diagnostics

namespace Bed

/-- The warning about a point, if it is out of reach. -/
def warning? (bed : Bed) (point : Point) : Option PointWarning :=
  if bed.reaches point then none else some { reasons := bed.violations point, point }

/-- What is wrong with some paths on a bed. -/
def diagnose (bed : Bed) (paths : List Path) : Diagnostics where
  warnings := paths.flatMap (·.filterMap bed.warning?)
  badSegments := paths.flatMap fun path =>
    path.segments.filter fun segment => !bed.reachesSegment segment.1 segment.2

/-- The diagnostics of two lists of paths are put together from those of each. -/
theorem diagnose_append (bed : Bed) (first second : List Path) :
    bed.diagnose (first ++ second) =
      { warnings := (bed.diagnose first).warnings ++ (bed.diagnose second).warnings
        badSegments := (bed.diagnose first).badSegments ++ (bed.diagnose second).badSegments } := by
  simp only [diagnose, List.flatMap_append]

end Bed
end Toolpath
