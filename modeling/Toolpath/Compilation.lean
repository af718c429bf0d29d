import Toolpath.Diagnostics
import Toolpath.Instruction.Printer
import Toolpath.Profile.Decoding
import Toolpath.Program

/-! # Compilation

From loose geometry and a loose profile to a program.  Points out of reach are reported and never
stop the program from being written; a profile that names no bed does, and so does a number that
overflowed on the way.
-/
namespace Toolpath

/-- A program with everything that was found on the way to it. -/
structure Compilation where
  profile : Profile
  paths : List Path
  diagnostics : Diagnostics
  instructions : List Instruction
  lines : List String

namespace Compilation

def status (compilation : Compilation) : String := compilation.diagnostics.status

/-- The outline of the bed that was compiled for. -/
def bed (compilation : Compilation) : Path := compilation.profile.outline

end Compilation

/-- The warning about paths with violations; none for the others. -/
def warnOutOfBounds (diagnostics : Diagnostics) : Outcome Unit :=
  if diagnostics.status = statusOk then pure ()
  else Outcome.warn (.outOfBounds diagnostics.status)

/-- The program for some geometry on a machine.  The caller's header lines, if there are any, take
the place of the header. -/
def compile (geometry : List Value) (profile : Value) (ownHeader : List String) :
    Outcome Compilation := do
  let profile ← Profile.ofValue profile
  let paths := Path.ofValues geometry
  let diagnostics := profile.bed.diagnose paths
  warnOutOfBounds diagnostics
  let body := motion profile.technique paths
  let instructions := profile.technique.assemble ownHeader body
  let lines ← Outcome.ofExcept (Instruction.writeAll instructions)
  return { profile, paths, diagnostics, instructions, lines }

end Toolpath
