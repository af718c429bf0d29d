import Toolpath.Bed.Outline
import Toolpath.Technique

/-! # Machine profiles

What a machine does, the space it reaches, and the outline of its bed where that is not the one its
space suggests.
-/
namespace Toolpath

/-- A machine set up for a job. -/
structure Profile where
  technique : Technique
  bed : Bed
  bedShape : Option Path
  deriving DecidableEq

/-- The size of a bed whose size is not given. -/
structure BedSize where
  x : Double
  y : Double
  z : Double
  radius : Double

def BedSize.defaults : BedSize := { x := 300, y := 300, z := 300, radius := 150 }

namespace Profile

/-- A pen on a rectangular bed. -/
def defaults : Profile where
  technique := .defaults .motion
  bed := .rectangular BedSize.defaults.x BedSize.defaults.y BedSize.defaults.z
  bedShape := none

/-- The outline to draw: the one given, or else that of the bed. -/
def outline (profile : Profile) : Path := profile.bedShape.getD profile.bed.outline

def toJson (profile : Profile) : Json :=
  .record <| [("process", profile.technique.toJson), ("bed", profile.bed.toJson)] ++
    (profile.bedShape.map fun shape => ("bedShape", shape.toJson)).toList

end Profile
end Toolpath
