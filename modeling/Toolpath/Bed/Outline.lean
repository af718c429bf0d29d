import Toolpath.Bed.Basic
import Toolpath.Double.Turn

/-! # The outline of a bed

The closed line around a bed at height zero: a rectangle from its corner at the origin, or a regular
polygon that starts and ends where the circle meets the X axis.
-/
namespace Toolpath

/-- The number of corners that stand for a circle. -/
def circleCorners : Nat := 72

/-- The angle of a corner of the circle. -/
def cornerAngle (corner : Nat) : Double :=
  Double.ofNat corner / Double.ofNat circleCorners * Double.pi * 2

def circle (radius : Double) : Path :=
  (List.range circleCorners).map (fun corner =>
    ⟨radius * (cornerAngle corner).cos, radius * (cornerAngle corner).sin, 0⟩) ++ [⟨radius, 0, 0⟩]

def Bed.outline : Bed → Path
  | rectangular maxX maxY _ => [⟨0, 0, 0⟩, ⟨maxX, 0, 0⟩, ⟨maxX, maxY, 0⟩, ⟨0, maxY, 0⟩, ⟨0, 0, 0⟩]
  | cylindrical radius _ => circle radius

end Toolpath
