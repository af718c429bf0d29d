import Toolpath.Profile.Decoding
import Mathlib.Data.List.Forall2

/-! # Readings

However a profile is written, decoding it comes down to a mode, a kind of bed and two lists of
numbers that are read one after another: the parameters of the mode and the sizes of the bed.  A
`Reading` is one such number, with the label it has in a warning.  `SpelledProfile.toProfile_eq` and
`Settings.toProfile_eq` say that for the two routes of decoding, and `Profile.ofStructure_eq` says
which values take which route.  Everything else about the numbers of a profile can then be proved of
`Reading.readAll`.
-/
namespace Toolpath

/-! ## Missing values -/

/-- Two values that are the same as far as decoding can tell: equal, or both not given. -/
def Value.Same (a b : Value) : Prop := a = b ∨ (a.isPresent = false ∧ b.isPresent = false)

namespace Value

@[simp] theorem Same.rfl {a : Value} : a.Same a := .inl (Eq.refl a)

/-- Only the value of a field that is not there and null are not given. -/
theorem isPresent_eq_false_iff {a : Value} : a.isPresent = false ↔ a = absent ∨ a = null := by
  cases a <;> simp [isPresent]

end Value

theorem readNumber_of_not_isPresent {value : Value} (label : String) (default : Double)
    (h : value.isPresent = false) : readNumber label value default = pure default := by
  rw [readNumber, h, if_neg Bool.false_ne_true]

theorem readNumber_congr {a b : Value} (h : a.Same b) (label : String) (default : Double) :
    readNumber label a default = readNumber label b default := by
  rcases h with rfl | ⟨ha, hb⟩
  · rfl
  · rw [readNumber_of_not_isPresent label default ha, readNumber_of_not_isPresent label default hb]

theorem Path.ofValue?_of_not_isPresent {value : Value} (h : value.isPresent = false) :
    ofValue? value = none := by
  rcases Value.isPresent_eq_false_iff.mp h with rfl | rfl <;> rfl

theorem Path.ofValue?_congr {a b : Value} (h : a.Same b) : ofValue? a = ofValue? b := by
  rcases h with rfl | ⟨ha, hb⟩
  · rfl
  · rw [ofValue?_of_not_isPresent ha, ofValue?_of_not_isPresent hb]

/-! ## Lists of readings -/

/-- A number to be read: its label in a warning, the value that should denote it, and what it is
where that value is missing. -/
structure Reading where
  label : String
  value : Value
  default : Double

namespace Reading

def read (reading : Reading) : Outcome Double :=
  readNumber reading.label reading.value reading.default

/-- The numbers of some readings, one after another. -/
def readAll (readings : List Reading) : Outcome (List Double) := readings.mapM read

theorem readAll_nil : readAll [] = pure [] := rfl

theorem readAll_cons (reading : Reading) (readings : List Reading) :
    readAll (reading :: readings) =
      reading.read >>= fun x => readAll readings >>= fun xs => pure (x :: xs) :=
  List.mapM_cons

end Reading

/-- Readings of values that are the same as far as decoding can tell. -/
theorem Reading.readAll_congr {ι : Type} {items : List ι} {value other : ι → Value}
    (h : ∀ item ∈ items, (value item).Same (other item)) (label : ι → String)
    (default : ι → Double) :
    readAll (items.map fun item =>
        { label := label item, value := value item, default := default item }) =
      readAll (items.map fun item =>
        { label := label item, value := other item, default := default item }) := by
  induction items with
  | nil => rfl
  | cons item items ih =>
    have hitems := ih fun other hother => h other (List.mem_cons_of_mem _ hother)
    simp only [List.map_cons, readAll_cons, read]
    rw [readNumber_congr (h item List.mem_cons_self), hitems]

/-! ## Techniques -/

/-- The parameters that a mode has, in the order in which they are read. -/
def Mode.parameters (mode : Mode) : List Parameter :=
  (Technique.defaults mode).parameters.map Prod.fst

/-- A technique has the parameters of its mode. -/
theorem Technique.map_fst_parameters (technique : Technique) :
    technique.parameters.map Prod.fst = technique.mode.parameters := by
  cases technique <;>
    simp only [mode, Mode.parameters, defaults, parameters, List.map_cons, List.map_nil]

/-- The readings of the parameters of a mode. -/
def Mode.readings (mode : Mode) (label : Parameter → String) (value : Parameter → Value) :
    List Reading :=
  (Technique.defaults mode).parameters.map fun (parameter, default) =>
    { label := label parameter, value := value parameter, default }

/-- The technique of a mode whose parameters are some numbers, in order. -/
def Technique.ofNumbers : Mode → List Double → Technique
  | .thermoplastic, [nozzleTemp, bedTemp, extrusionMultiplier, feedRate, clearanceHeight] =>
    thermoplastic { nozzleTemp, bedTemp, extrusionMultiplier, feedRate, clearanceHeight }
  | .paste, [pressure, flowRate, retractionDelay, curePause, feedRate, clearanceHeight] =>
    paste { pressure, flowRate, retractionDelay, curePause, feedRate, clearanceHeight }
  | .motion, [penUpHeight, penDownOffset, penDownDelay, feedRate, clearanceHeight] =>
    motion { penUpHeight, penDownOffset, penDownDelay, feedRate, clearanceHeight }
  | mode, _ => defaults mode

/-- A technique is built from the readings of its parameters. -/
theorem Technique.build_eq (mode : Mode) (label : Parameter → String) (value : Parameter → Value) :
    build (fun parameter => readNumber (label parameter) (value parameter)) mode =
      Reading.readAll (mode.readings label value) >>= fun numbers =>
        pure (ofNumbers mode numbers) := by
  cases mode <;>
    simp only [build, Mode.readings, defaults, parameters, List.map_cons, List.map_nil,
      Reading.readAll_cons, Reading.readAll_nil, Reading.read, bind_assoc, pure_bind, ofNumbers]

/-! ## Beds -/

/-- A size of a bed. -/
inductive Extent
  | x
  | y
  | z
  | radius
  deriving DecidableEq, Repr

namespace Extent

/-- The name of a size in a profile that is spelled out. -/
def name : Extent → String
  | x => "maxX"
  | y => "maxY"
  | z => "maxZ"
  | radius => "radius"

/-- The key of a size in a record of settings. -/
def key : Extent → String
  | x => "BedX"
  | y => "BedY"
  | z => "BedZ"
  | radius => "BedRadius"

def default : Extent → Double
  | x => BedSize.defaults.x
  | y => BedSize.defaults.y
  | z => BedSize.defaults.z
  | radius => BedSize.defaults.radius

end Extent

/-- The sizes that a bed of some kind has, in the order in which they are read. -/
def BedKind.extents : BedKind → List Extent
  | rectangular => [.z, .x, .y]
  | cylindrical => [.z, .radius]

/-- The readings of the sizes of a bed. -/
def BedKind.readings (kind : BedKind) (label : Extent → String) (value : Extent → Value) :
    List Reading :=
  kind.extents.map fun extent =>
    { label := label extent, value := value extent, default := extent.default }

/-- The bed of a kind whose sizes are some numbers, in order. -/
def Bed.ofNumbers : BedKind → List Double → Bed
  | .rectangular, [maxZ, maxX, maxY] => rectangular maxX maxY maxZ
  | .cylindrical, [maxZ, radius] => cylindrical radius maxZ
  | .rectangular, _ => rectangular Extent.x.default Extent.y.default Extent.z.default
  | .cylindrical, _ => cylindrical Extent.radius.default Extent.z.default

/-- The value of a size among settings. -/
def Settings.extent (settings : Settings) : Extent → Value
  | .x => settings.bedX
  | .y => settings.bedY
  | .z => settings.bedZ
  | .radius => settings.bedRadius

theorem SpelledProfile.readBed_eq (spelled : SpelledProfile) :
    spelled.readBed =
      Reading.readAll (spelled.bedKind.readings (fun extent => "bed." ++ extent.name)
        fun extent => spelled.bed.field extent.name) >>= fun sizes =>
          pure (Bed.ofNumbers spelled.bedKind sizes) := by
  obtain ⟨mode, technique, kind, bed, shape⟩ := spelled
  cases kind <;>
    simp only [readBed, BedKind.readings, BedKind.extents, List.map_cons, List.map_nil,
      Reading.readAll_cons, Reading.readAll_nil, Reading.read, bind_assoc, pure_bind,
      Bed.ofNumbers, Extent.name, Extent.default]

theorem Settings.readBed_eq (settings : Settings) :
    settings.readBed = settings.readBedKind >>= fun kind =>
      Reading.readAll (kind.readings Extent.key settings.extent) >>= fun sizes =>
        pure (Bed.ofNumbers kind sizes) := by
  rw [readBed]
  refine congrArg (settings.readBedKind >>= ·) (funext fun kind => ?_)
  cases kind <;>
    simp only [BedKind.readings, BedKind.extents, List.map_cons, List.map_nil,
      Reading.readAll_cons, Reading.readAll_nil, Reading.read, bind_assoc, pure_bind,
      Bed.ofNumbers, Extent.key, Extent.default, extent]

/-! ## Profiles -/

namespace Profile

/-- The profile of a mode and a kind of bed whose parameters and sizes are some numbers. -/
def ofNumbers (mode : Mode) (kind : BedKind) (shape : Value) (parameters sizes : List Double) :
    Profile where
  technique := .ofNumbers mode parameters
  bed := .ofNumbers kind sizes
  bedShape := Path.ofValue? shape

/-- The profile of a mode and a kind of bed whose parameters and sizes are read. -/
def ofReadings (mode : Mode) (kind : BedKind) (shape : Value) (parameters sizes : List Reading) :
    Outcome Profile := do
  let parameters ← Reading.readAll parameters
  let sizes ← Reading.readAll sizes
  return ofNumbers mode kind shape parameters sizes

theorem ofReadings_congr {mode : Mode} {kind : BedKind} {shape otherShape : Value}
    {parameterLabel : Parameter → String} {parameter otherParameter : Parameter → Value}
    {extentLabel : Extent → String} {extent otherExtent : Extent → Value}
    (hparameter : ∀ p ∈ mode.parameters, (parameter p).Same (otherParameter p))
    (hextent : ∀ e ∈ kind.extents, (extent e).Same (otherExtent e))
    (hshape : shape.Same otherShape) :
    ofReadings mode kind shape (mode.readings parameterLabel parameter)
        (kind.readings extentLabel extent) =
      ofReadings mode kind otherShape (mode.readings parameterLabel otherParameter)
        (kind.readings extentLabel otherExtent) := by
  have hparameters : Reading.readAll (mode.readings parameterLabel parameter) =
      Reading.readAll (mode.readings parameterLabel otherParameter) :=
    Reading.readAll_congr (fun entry hentry => hparameter _ (List.mem_map_of_mem hentry)) _ _
  have hsizes : Reading.readAll (kind.readings extentLabel extent) =
      Reading.readAll (kind.readings extentLabel otherExtent) :=
    Reading.readAll_congr hextent _ _
  simp only [ofReadings, ofNumbers, hparameters, hsizes, Path.ofValue?_congr hshape]

end Profile

namespace SpelledProfile
variable (spelled : SpelledProfile)

def parameterReadings : List Reading :=
  spelled.mode.readings (fun parameter => "process." ++ parameter.name)
    fun parameter => spelled.technique.field parameter.name

def sizeReadings : List Reading :=
  spelled.bedKind.readings (fun extent => "bed." ++ extent.name)
    fun extent => spelled.bed.field extent.name

/-- **A profile that is spelled out** is read number by number. -/
theorem toProfile_eq :
    spelled.toProfile = Profile.ofReadings spelled.mode spelled.bedKind spelled.bedShape
      spelled.parameterReadings spelled.sizeReadings := by
  rw [toProfile, readTechnique, Technique.build_eq, readBed_eq]
  simp only [bind_assoc, pure_bind]
  rfl

end SpelledProfile

namespace Settings
variable (settings : Settings)

/-- The readings of the parameters of a mode among settings. -/
def parameterReadings (mode : Mode) : List Reading :=
  mode.readings (fun parameter => "param " ++ parameter.key)
    fun parameter => settings.parameters.field parameter.key

/-- The readings of the sizes of a kind of bed among settings. -/
def sizeReadings (kind : BedKind) : List Reading := kind.readings Extent.key settings.extent

/-- **Settings** are read number by number once their mode and their kind of bed are known. -/
theorem toProfile_eq :
    settings.toProfile = (do
      let mode ← settings.readMode
      let parameters ← Reading.readAll (settings.parameterReadings mode)
      let kind ← settings.readBedKind
      let sizes ← Reading.readAll (settings.sizeReadings kind)
      return Profile.ofNumbers mode kind settings.bedShape parameters sizes) := by
  rw [toProfile]
  refine congrArg (settings.readMode >>= ·) (funext fun mode => ?_)
  rw [Technique.ofParameters, Technique.build_eq, readBed_eq]
  simp only [bind_assoc, pure_bind]
  rfl

/-- Settings that name their mode and their kind of bed. -/
theorem toProfile_of_named {mode : Mode} {kind : BedKind} (hmode : settings.readMode = pure mode)
    (hkind : settings.readBedKind = pure kind) :
    settings.toProfile = Profile.ofReadings mode kind settings.bedShape
      (settings.parameterReadings mode) (settings.sizeReadings kind) := by
  rw [toProfile_eq, hmode, pure_bind, hkind]
  simp only [pure_bind]
  rfl

/-- The settings that a value holds: a list by position, a record under their keys.  A curve is a
record without any of the keys. -/
def ofStructure? : Value → Option Settings
  | .list items => some (ofList items)
  | .record fields => some (ofRecord (.record fields))
  | .curve points => some (ofRecord (.curve points))
  | _ => none

/-- No settings at all are the default profile. -/
theorem toProfile_of_absent :
    toProfile ⟨.absent, .absent, .absent, .absent, .absent, .absent, .absent, .absent⟩ =
      pure Profile.defaults :=
  rfl

end Settings

/-- What decoding makes of a value that is neither spelled out nor holds settings. -/
def Profile.ofNothing (value : Value) : Outcome Profile :=
  if value.isPresent then do
    Outcome.warn (.unsupportedProfile value.kindName)
    return defaults
  else pure defaults

/-- **The routes of decoding.**  That an empty list and an empty record are the default profile
makes no difference to what settings would make of them. -/
theorem Profile.ofStructure_eq (value : Value) :
    ofStructure value =
      ((SpelledProfile.ofValue? value).map SpelledProfile.toProfile).getD
        (((Settings.ofStructure? value).map Settings.toProfile).getD (ofNothing value)) := by
  unfold ofStructure
  cases SpelledProfile.ofValue? value with
  | some spelled => rfl
  | none =>
    rw [Option.map_none, Option.getD_none]
    cases value with
    | list items =>
      cases items with
      | nil => exact Settings.toProfile_of_absent.symm
      | cons item items => rfl
    | record fields =>
      cases fields with
      | nil => exact Settings.toProfile_of_absent.symm
      | cons field fields => rfl
    | _ => rfl

end Toolpath
