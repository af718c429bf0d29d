import Toolpath.Profile.Reading

/-! # Profiles spelled out

A profile that names its mode and its kind of bed by their own names and holds every number under
the name of what it sets.  It is read number by number, so that one with gaps has the same defaults
as the other forms.
-/
namespace Toolpath

/-- A profile spelled out: the kinds it names, and the values that hold the rest. -/
structure SpelledProfile where
  mode : Mode
  technique : Value
  bedKind : BedKind
  bed : Value
  bedShape : Value

namespace SpelledProfile

/-- A value that names a mode under `process` and a kind of bed under `bed`. -/
def ofValue? (value : Value) : Option SpelledProfile := do
  let technique := value.field "process"
  let bed := value.field "bed"
  let .text modeName := technique.field "mode" | none
  let mode ← Mode.ofName? modeName
  let .text kindName := bed.field "kind" | none
  let bedKind ← BedKind.ofName? kindName
  return { mode, technique, bedKind, bed, bedShape := value.field "bedShape" }

def readBed (spelled : SpelledProfile) : Outcome Bed := do
  let read (name : String) := readNumber ("bed." ++ name) (spelled.bed.field name)
  let maxZ ← read "maxZ" BedSize.defaults.z
  match spelled.bedKind with
  | .rectangular => do
    let maxX ← read "maxX" BedSize.defaults.x
    let maxY ← read "maxY" BedSize.defaults.y
    return .rectangular maxX maxY maxZ
  | .cylindrical => do
    let radius ← read "radius" BedSize.defaults.radius
    return .cylindrical radius maxZ

def readTechnique (spelled : SpelledProfile) : Outcome Technique :=
  Technique.build
    (fun parameter =>
      readNumber ("process." ++ parameter.name) (spelled.technique.field parameter.name))
    spelled.mode

/-- The profile that is spelled out. -/
def toProfile (spelled : SpelledProfile) : Outcome Profile := do
  let technique ← spelled.readTechnique
  let bed ← spelled.readBed
  return { technique, bed, bedShape := Path.ofValue? spelled.bedShape }

end SpelledProfile

end Toolpath
