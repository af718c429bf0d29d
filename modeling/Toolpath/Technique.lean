import Toolpath.Json.Basic

/-! # Techniques

What the tool does along its paths: melts a filament, presses a paste, or only moves a pen.  Each
mode has parameters of its own; every mode has a feed rate and a height in which the tool travels
clear of the work.  `Technique.build` fills the parameters of a mode one by one, in a fixed order,
from whatever source can answer for a parameter and its default.
-/
namespace Toolpath

/-- What the tool does while it moves. -/
inductive Mode
  | thermoplastic
  | paste
  | motion
  deriving DecidableEq, Repr

/-- The parameters of melting a filament. -/
structure Thermoplastic where
  nozzleTemp : Double
  bedTemp : Double
  extrusionMultiplier : Double
  feedRate : Double
  clearanceHeight : Double
  deriving DecidableEq

/-- The parameters of pressing a paste. -/
structure Paste where
  pressure : Double
  flowRate : Double
  retractionDelay : Double
  curePause : Double
  feedRate : Double
  clearanceHeight : Double
  deriving DecidableEq

/-- The parameters of moving a pen. -/
structure PenMotion where
  penUpHeight : Double
  penDownOffset : Double
  penDownDelay : Double
  feedRate : Double
  clearanceHeight : Double
  deriving DecidableEq

/-- A mode with its parameters. -/
inductive Technique
  | thermoplastic (settings : Thermoplastic)
  | paste (settings : Paste)
  | motion (settings : PenMotion)
  deriving DecidableEq

/-- The parameters of all modes. -/
inductive Parameter
  | nozzleTemp
  | bedTemp
  | extrusionMultiplier
  | feedRate
  | clearanceHeight
  | pressure
  | flowRate
  | retractionDelay
  | curePause
  | penUpHeight
  | penDownOffset
  | penDownDelay
  deriving DecidableEq, Repr

/-- The name of a parameter in a profile that is spelled out. -/
def Parameter.name : Parameter → String
  | nozzleTemp => "nozzleTemp"
  | bedTemp => "bedTemp"
  | extrusionMultiplier => "extrusionMultiplier"
  | feedRate => "feedRate"
  | clearanceHeight => "clearanceHeight"
  | pressure => "pressure"
  | flowRate => "flowRate"
  | retractionDelay => "retractionDelay"
  | curePause => "curePause"
  | penUpHeight => "penUpHeight"
  | penDownOffset => "penDownOffset"
  | penDownDelay => "penDownDelay"

/-- The key of a parameter in a map of parameters. -/
def Parameter.key : Parameter → String
  | nozzleTemp => "NozzleTemp"
  | bedTemp => "BedTemp"
  | extrusionMultiplier => "ExtrusionMultiplier"
  | feedRate => "FeedRate"
  | clearanceHeight => "ClearanceHeight"
  | pressure => "ExtrusionPressure"
  | flowRate => "FlowRate"
  | retractionDelay => "RetractionDelay"
  | curePause => "CurePause"
  | penUpHeight => "PenUpHeight"
  | penDownOffset => "PenDownOffset"
  | penDownDelay => "PenDownDelay"

def Mode.name : Mode → String
  | thermoplastic => "thermoplastic"
  | paste => "paste"
  | motion => "motion"

/-- The mode with a name. -/
def Mode.ofName? : String → Option Mode
  | "thermoplastic" => some thermoplastic
  | "paste" => some paste
  | "motion" => some motion
  | _ => none

theorem Mode.ofName?_name (mode : Mode) : ofName? mode.name = some mode := by
  cases mode <;> rfl

def Thermoplastic.defaults : Thermoplastic where
  nozzleTemp := 210
  bedTemp := 30
  extrusionMultiplier := 0.2
  feedRate := 1500
  clearanceHeight := 5

def Paste.defaults : Paste where
  pressure := 4
  flowRate := 10
  retractionDelay := 0.5
  curePause := 0
  feedRate := 800
  clearanceHeight := 5

def PenMotion.defaults : PenMotion where
  penUpHeight := 5
  penDownOffset := 0.2
  penDownDelay := 100
  feedRate := 1000
  clearanceHeight := 5

namespace Technique

/-- The technique of a mode with every parameter at its default. -/
def defaults : Mode → Technique
  | .thermoplastic => thermoplastic Thermoplastic.defaults
  | .paste => paste Paste.defaults
  | .motion => motion PenMotion.defaults

def mode : Technique → Mode
  | thermoplastic _ => .thermoplastic
  | paste _ => .paste
  | motion _ => .motion

def feedRate : Technique → Double
  | thermoplastic settings => settings.feedRate
  | paste settings => settings.feedRate
  | motion settings => settings.feedRate

/-- How far above the work the tool travels. -/
def clearanceHeight : Technique → Double
  | thermoplastic settings => settings.clearanceHeight
  | paste settings => settings.clearanceHeight
  | motion settings => settings.clearanceHeight

/-- How much filament goes into a unit of length, in the mode that counts filament. -/
def extrusionMultiplier? : Technique → Option Double
  | thermoplastic settings => some settings.extrusionMultiplier
  | _ => none

/-- The technique of a mode whose parameters come from `read`, which is asked for one after another
and told each one's default. -/
def build {m : Type → Type} [Monad m] (read : Parameter → Double → m Double) : Mode → m Technique
  | .thermoplastic => do
    let defaults := Thermoplastic.defaults
    let nozzleTemp ← read .nozzleTemp defaults.nozzleTemp
    let bedTemp ← read .bedTemp defaults.bedTemp
    let extrusionMultiplier ← read .extrusionMultiplier defaults.extrusionMultiplier
    let feedRate ← read .feedRate defaults.feedRate
    let clearanceHeight ← read .clearanceHeight defaults.clearanceHeight
    return thermoplastic { nozzleTemp, bedTemp, extrusionMultiplier, feedRate, clearanceHeight }
  | .paste => do
    let defaults := Paste.defaults
    let pressure ← read .pressure defaults.pressure
    let flowRate ← read .flowRate defaults.flowRate
    let retractionDelay ← read .retractionDelay defaults.retractionDelay
    let curePause ← read .curePause defaults.curePause
    let feedRate ← read .feedRate defaults.feedRate
    let clearanceHeight ← read .clearanceHeight defaults.clearanceHeight
    return paste { pressure, flowRate, retractionDelay, curePause, feedRate, clearanceHeight }
  | .motion => do
    let defaults := PenMotion.defaults
    let penUpHeight ← read .penUpHeight defaults.penUpHeight
    let penDownOffset ← read .penDownOffset defaults.penDownOffset
    let penDownDelay ← read .penDownDelay defaults.penDownDelay
    let feedRate ← read .feedRate defaults.feedRate
    let clearanceHeight ← read .clearanceHeight defaults.clearanceHeight
    return motion { penUpHeight, penDownOffset, penDownDelay, feedRate, clearanceHeight }

/-- The parameters of a technique with their values, in order. -/
def parameters : Technique → List (Parameter × Double)
  | thermoplastic s =>
    [(.nozzleTemp, s.nozzleTemp), (.bedTemp, s.bedTemp),
      (.extrusionMultiplier, s.extrusionMultiplier), (.feedRate, s.feedRate),
      (.clearanceHeight, s.clearanceHeight)]
  | paste s =>
    [(.pressure, s.pressure), (.flowRate, s.flowRate), (.retractionDelay, s.retractionDelay),
      (.curePause, s.curePause), (.feedRate, s.feedRate), (.clearanceHeight, s.clearanceHeight)]
  | motion s =>
    [(.penUpHeight, s.penUpHeight), (.penDownOffset, s.penDownOffset),
      (.penDownDelay, s.penDownDelay), (.feedRate, s.feedRate),
      (.clearanceHeight, s.clearanceHeight)]

def toJson (technique : Technique) : Json :=
  .record <| ("mode", .text technique.mode.name) ::
    technique.parameters.map fun (parameter, value) => (parameter.name, .number value)

end Technique
end Toolpath
