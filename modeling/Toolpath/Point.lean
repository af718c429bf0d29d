import Toolpath.Decimal.Fixed
import Toolpath.Double.Length
import Toolpath.Value

/-! # Points

A point in the machine's space.  Coordinates that are read are rounded to thousandths
(`roundCoordinate`): the exact value decides, and one that lies exactly halfway between two
thousandths goes to the even one.
-/
namespace Toolpath

open CorePowers

/-- A position of the tool. -/
structure Point where
  x : Double
  y : Double
  z : Double
  deriving DecidableEq

/-- The places that coordinates keep. -/
def coordinatePlaces : Nat := 3

/-- The number of steps in one that coordinates are rounded to. -/
def coordinateScale : Double := .ofNat (10 ^ coordinatePlaces)

/-- Whether a value lies exactly halfway between two thousandths, which is to say that it is an odd
number of sixteenths. -/
def Magnitude.isHalfway (size : Magnitude) : Bool :=
  size.units * 2 ^ (coordinatePlaces + 1) % (2 * Double.unitsPerOne) == Double.unitsPerOne

/-- The even one of an integer and its successor. -/
def evenFrom (i : Int) : Int := if i % 2 = 0 then i else i + 1

/-- A coordinate rounded to thousandths.  A zero is never negative, and what is not finite or not
below `10 ^ 21` is left as it is. -/
def roundCoordinate (value : Double) : Double :=
  match value with
  | .finite negative size =>
    let rounded :=
      if size.isHalfway then
        .ofInt (evenFrom (value * coordinateScale).floor) / coordinateScale
      else if value.isHuge then value
      else .ofDecimal negative ⟨size.steps coordinatePlaces, -coordinatePlaces⟩
    if rounded.isZero then 0 else rounded
  | _ => value

namespace Point

/-- A finite number. -/
def coordinate? : Value → Option Double
  | .number x => if x.isFinite then some x else none
  | _ => none

/-- The three values that a list of three or a record with fields `x`, `y` and `z` holds. -/
def coordinates? : Value → Option (Value × Value × Value)
  | .list [x, y, z] => some (x, y, z)
  | .record fields =>
    let entry := Value.record fields
    some (entry.field "x", entry.field "y", entry.field "z")
  | _ => none

/-- The point that a value denotes, rounded. -/
def ofValue? (value : Value) : Option Point := do
  let (x, y, z) ← coordinates? value
  let x ← coordinate? x
  let y ← coordinate? y
  let z ← coordinate? z
  return ⟨roundCoordinate x, roundCoordinate y, roundCoordinate z⟩

/-- The length of the straight line from one point to another. -/
def distance (a b : Point) : Double := .length [b.x - a.x, b.y - a.y, b.z - a.z]

/-- The point halfway between two. -/
def midpoint (a b : Point) : Point := ⟨(a.x + b.x) / 2, (a.y + b.y) / 2, (a.z + b.z) / 2⟩

def toJson (point : Point) : Json := .list [.number point.x, .number point.y, .number point.z]

end Point
end Toolpath
