import Toolpath.Archive
import Toolpath.Archive.Layout
import Toolpath.Bed.Basic
import Toolpath.Bed.Outline
import Toolpath.Checksum
import Toolpath.Compilation
import Toolpath.Decimal.Basic
import Toolpath.Decimal.Fixed
import Toolpath.Decimal.Numeral
import Toolpath.Decimal.Shortest
import Toolpath.Diagnostics
import Toolpath.Double.Basic
import Toolpath.Double.Length
import Toolpath.Double.Turn
import Toolpath.Instruction.Basic
import Toolpath.Instruction.Printer
import Toolpath.Json.Basic
import Toolpath.Json.Loose
import Toolpath.Json.Printer
import Toolpath.Json.Reader
import Toolpath.Json.Strict
import Toolpath.Json.Token
import Toolpath.Manifest
import Toolpath.Motion
import Toolpath.Outcome
import Toolpath.Path
import Toolpath.Point
import Toolpath.Profile.Basic
import Toolpath.Profile.Decoding
import Toolpath.Profile.Reading
import Toolpath.Profile.Settings
import Toolpath.Profile.Spelled
import Toolpath.Program
import Toolpath.Rounding
import Toolpath.Slot
import Toolpath.Technique
import Toolpath.Text.Blank
import Toolpath.Text.Units
import Toolpath.Value
import Toolpath.Proofs.Nearest
import Toolpath.Proofs.DecimalSteps
import Toolpath.Proofs.NearestIntegers
import Toolpath.Proofs.HalfwayValues
import Toolpath.Proofs.Coordinates
import Toolpath.Proofs.NumberTexts
import Toolpath.Proofs.ReadBack
import Toolpath.Proofs.StepTexts
import Toolpath.Proofs.CoordinateLaws
import Toolpath.Proofs.Lines
import Toolpath.Proofs.RoundedPaths
import Toolpath.Proofs.SoundProfiles
import Toolpath.Proofs.Overflow
import Toolpath.Proofs.Compiling
import Toolpath.Proofs.Fixpoint
import Toolpath.Proofs.Replay
import Toolpath.Proofs.LiteralTokens
import Toolpath.Proofs.TokenValues
import Toolpath.Proofs.Literals
import Toolpath.Proofs.Encodings
import Toolpath.Proofs.DecodingFaults
import Toolpath.Proofs.NumberTokens
import Toolpath.Proofs.Escapes
import Toolpath.Proofs.StrictTexts
import Toolpath.Proofs.LooseReadings
import Toolpath.Proofs.LooseTokens
import Toolpath.Proofs.LooseLiterals
import Toolpath.Proofs.LiteralReading
import Toolpath.Proofs.PlainLines
import Toolpath.Proofs.PrintedJson
import Toolpath.Proofs.SavedProfiles
import Toolpath.Proofs.AmbiguousBeds
import Toolpath.Proofs.Checksums
import Toolpath.Proofs.ArchiveLayout
import Toolpath.Proofs.ArchiveReading
import Toolpath.Proofs.Surveys
import Toolpath.Proofs.Extrusions
import Toolpath.Proofs.Heaters
import Toolpath.Proofs.Composition
import Toolpath.Proofs.Separation
import Toolpath.Proofs.ManifestReading
import Toolpath.Proofs.RoundedArithmetic
import Toolpath.Proofs.Lengths
import Toolpath.Proofs.Midpoints
import Toolpath.Proofs.FixedTexts
import Toolpath.Proofs.ExtrusionOrder
import Toolpath.Proofs.CommandReading
import Toolpath.Proofs.PlaneLengths
import Toolpath.Proofs.Rims
import Toolpath.Proofs.Enlargements
import Toolpath.Proofs.PathReadings
import Toolpath.Proofs.Travels
import Toolpath.Proofs.Symmetries
import Toolpath.Proofs.ParameterMaps
import Toolpath.Proofs.EntryNames
import Toolpath.Proofs.ArchiveLayout
