import Toolpath.Profile.Reading

/-! # Profiles as settings

Eight settings, each a loose value, in a record under their keys or in a list by position.  The mode
and the printer are named by keywords.  A mode that is not known becomes motion, with a warning.  A
printer that is not known is a fault, and so are settings that name none and size both kinds of bed.
-/
namespace Toolpath

/-- The technique of a mode whose parameters stand in a map under their keys. -/
def Technique.ofParameters (mode : Mode) (parameters : Value) : Outcome Technique :=
  Technique.build
    (fun parameter => readNumber ("param " ++ parameter.key) (parameters.field parameter.key)) mode

/-- A keyword without the blanks around it, in lower case.  Only ASCII letters are folded: no
other letter folds into a keyword. -/
def keyword (text : String) : String := String.ofList ((trim text.toList).map Char.toLower)

/-- The mode that a keyword stands for. -/
def Mode.ofKeyword? (text : String) : Option Mode :=
  match keyword text with
  | "hot" => some thermoplastic
  | "thermoplastic" => some thermoplastic
  | "clay" => some paste
  | "paste" => some paste
  | "pen" => some motion
  | "motion" => some motion
  | _ => none

/-- The bed kind of the printer that a keyword stands for. -/
def BedKind.ofKeyword? (text : String) : Option BedKind :=
  match keyword text with
  | "cartesian" => some rectangular
  | "rectangular" => some rectangular
  | "delta" => some cylindrical
  | "cylindrical" => some cylindrical
  | _ => none

/-- The values of the settings of a profile, read or not. -/
structure Settings where
  mode : Value
  printer : Value
  parameters : Value
  bedX : Value
  bedY : Value
  bedZ : Value
  bedRadius : Value
  bedShape : Value

namespace Settings

/-- Settings under their keys. -/
def ofRecord (record : Value) : Settings where
  mode := record.field "Mode"
  printer := record.field "PrinterType"
  parameters := record.field "Params"
  bedX := record.field "BedX"
  bedY := record.field "BedY"
  bedZ := record.field "BedZ"
  bedRadius := record.field "BedRadius"
  bedShape := record.field "BedShape"

/-- Settings by position. -/
def ofList (items : List Value) : Settings where
  mode := Value.item items 0
  printer := Value.item items 1
  parameters := Value.item items 2
  bedX := Value.item items 3
  bedY := Value.item items 4
  bedZ := Value.item items 5
  bedRadius := Value.item items 6
  bedShape := Value.item items 7

/-- The mode that is named, or motion where none is. -/
def readMode (settings : Settings) : Outcome Mode :=
  let unknown : Outcome Mode := do
    let shown ← Outcome.shown settings.mode
    Outcome.warn (.unknownMode shown)
    return .motion
  match settings.mode with
  | .absent => pure .motion
  | .null => pure .motion
  | .text name => match Mode.ofKeyword? name with
    | some mode => pure mode
    | none => unknown
  | _ => unknown

/-- The kind of bed that is named.  Where none is, it is rectangular, unless the settings size both
kinds. -/
def readBedKind (settings : Settings) : Outcome BedKind :=
  let unknown : Outcome BedKind := do
    let shown ← Outcome.shown settings.printer
    Outcome.fail (.unknownPrinter shown settings.printer)
  if settings.printer.isPresent then
    match settings.printer with
    | .text name => match BedKind.ofKeyword? name with
      | some kind => pure kind
      | none => unknown
    | _ => unknown
  else if settings.bedRadius.isPresent && (settings.bedX.isPresent || settings.bedY.isPresent) then
    Outcome.fail (.ambiguousBed settings.bedX settings.bedY settings.bedRadius)
  else pure .rectangular

/-- The bed of the kind that is named, with the sizes that are given. -/
def readBed (settings : Settings) : Outcome Bed := do
  let kind ← settings.readBedKind
  let maxZ ← readNumber "BedZ" settings.bedZ BedSize.defaults.z
  match kind with
  | .rectangular => do
    let maxX ← readNumber "BedX" settings.bedX BedSize.defaults.x
    let maxY ← readNumber "BedY" settings.bedY BedSize.defaults.y
    return .rectangular maxX maxY maxZ
  | .cylindrical => do
    let radius ← readNumber "BedRadius" settings.bedRadius BedSize.defaults.radius
    return .cylindrical radius maxZ

/-- The profile that settings describe. -/
def toProfile (settings : Settings) : Outcome Profile := do
  let mode ← settings.readMode
  let technique ← Technique.ofParameters mode settings.parameters
  let bed ← settings.readBed
  return { technique, bed, bedShape := Path.ofValue? settings.bedShape }

end Settings

end Toolpath
