import Toolpath.Path

/-! # Beds

The space a machine can reach: a box with one corner at the origin, or a cylinder that stands around
the origin.  A bed judges a point by the list of limits the point breaks, always in the same order.
-/
namespace Toolpath

/-- What the machine can reach, from height zero up to `maxZ`. -/
inductive Bed
  | rectangular (maxX maxY maxZ : Double)
  | cylindrical (radius maxZ : Double)
  deriving DecidableEq

/-- A limit of the bed that a point breaks. -/
inductive Violation
  | belowX
  | belowY
  | belowZ
  | beyondX
  | beyondY
  | beyondZ
  | beyondRadius
  deriving DecidableEq, Repr

/-- How a broken limit is written. -/
def Violation.text : Violation → String
  | belowX => "X<0"
  | belowY => "Y<0"
  | belowZ => "Z<0"
  | beyondX => "X>BedX"
  | beyondY => "Y>BedY"
  | beyondZ => "Z>BedZ"
  | beyondRadius => "r>BedRadius"

namespace Bed

/-- Each limit of a bed, with whether a point breaks it. -/
def limits (bed : Bed) (point : Point) : List (Violation × Bool) :=
  match bed with
  | rectangular maxX maxY maxZ =>
    [(.belowX, point.x < 0), (.belowY, point.y < 0), (.belowZ, point.z < 0),
      (.beyondX, maxX < point.x), (.beyondY, maxY < point.y), (.beyondZ, maxZ < point.z)]
  | cylindrical radius maxZ =>
    [(.beyondRadius, radius < .length [point.x, point.y]), (.belowZ, point.z < 0),
      (.beyondZ, maxZ < point.z)]

/-- The limits that a point breaks. -/
def violations (bed : Bed) (point : Point) : List Violation :=
  ((bed.limits point).filter (·.2)).map (·.1)

/-- Whether a point breaks no limit. -/
def reaches (bed : Bed) (point : Point) : Bool := (bed.violations point).isEmpty

/-- Whether the tool can move along a segment: both ends are in reach and, on a rectangular bed, so
is the point halfway. -/
def reachesSegment (bed : Bed) (a b : Point) : Bool :=
  bed.reaches a && bed.reaches b &&
    match bed with
    | rectangular _ _ _ => bed.reaches (a.midpoint b)
    | cylindrical _ _ => true

/-- The name of the kind of bed. -/
def kindName : Bed → String
  | rectangular _ _ _ => "bed.rectangular"
  | cylindrical _ _ => "bed.cylindrical"

def toJson (bed : Bed) : Json :=
  .record <| ("kind", .text bed.kindName) :: match bed with
    | rectangular maxX maxY maxZ =>
      [("maxX", .number maxX), ("maxY", .number maxY), ("maxZ", .number maxZ)]
    | cylindrical radius maxZ => [("radius", .number radius), ("maxZ", .number maxZ)]

end Bed
end Toolpath
