import Toolpath.Compilation
import Toolpath.Json.Printer

/-! # The diagnostics manifest

What is told about a compilation beside its program, as a JSON record.
-/
namespace Toolpath

def PointWarning.toJson (warning : PointWarning) : Json :=
  .record [("text", .text warning.text), ("point", warning.point.toJson)]

namespace Compilation

/-- The record that describes a compilation. -/
def manifest (compilation : Compilation) : Json :=
  let diagnostics := compilation.diagnostics
  .record
    [("status", .text compilation.status),
      ("mode", .text compilation.profile.technique.mode.name),
      ("bed", compilation.profile.bed.toJson),
      ("lineCount", .ofNat compilation.lines.length),
      ("pathCount", .ofNat compilation.paths.length),
      ("violationCount", .ofNat diagnostics.violationCount),
      ("badPoints", .list (diagnostics.badPoints.map Point.toJson)),
      ("badSegments", .list (diagnostics.badSegments.map Segment.toJson)),
      ("warnings", .list (diagnostics.warnings.map PointWarning.toJson))]

/-- The manifest, one item to a line. -/
def manifestText (compilation : Compilation) : String := compilation.manifest.toIndentedText

end Compilation
end Toolpath
