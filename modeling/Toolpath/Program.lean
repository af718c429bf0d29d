import Toolpath.Motion

/-! # Programs

A program is motion between a header and a footer.  Only a thermoplastic technique has heaters: its
header sets them and its footer switches them off.  Lines of a caller's own can take the place of
the header; the footer is always there.
-/
namespace Toolpath

/-- The comment that opens a program. -/
def programBanner : String := "plotcast G-code program"

/-- The commands that set the two heaters. -/
def heaterCommands (nozzle bed : Double) (nozzleNote bedNote : String) : List Instruction :=
  [.command "M104" [.plain .s nozzle] (.filled nozzleNote),
    .command "M140" [.plain .s bed] (.filled bedNote)]

namespace Technique

/-- What sets the heaters before the work. -/
def heatersOn : Technique → List Instruction
  | thermoplastic settings =>
    heaterCommands settings.nozzleTemp settings.bedTemp
      "set nozzle temperature" "set bed temperature"
  | _ => []

/-- What switches the heaters off after the work. -/
def heatersOff : Technique → List Instruction
  | thermoplastic _ => heaterCommands 0 0 "nozzle heater off" "bed heater off"
  | _ => []

def header (technique : Technique) : List Instruction :=
  [.comment programBanner, .command "G28" [] (.filled "home all axes")] ++ technique.heatersOn ++
    [.command "G92" [.plain .e 0] (.filled "reset extrusion")]

def footer (technique : Technique) : List Instruction :=
  [.comment "end of program"] ++ technique.heatersOff ++
    [.command "M107" [] (.filled "fans off"), .command "G28" [.plain .x 0] (.filled "home X"),
      .command "M84" [] (.filled "disable motors")]

/-- The header of a program: the caller's lines as they are, if there are any. -/
def headerOr (technique : Technique) (ownHeader : List String) : List Instruction :=
  if ownHeader.isEmpty then technique.header else ownHeader.map .verbatim

/-- A body of instructions with its header and footer. -/
def assemble (technique : Technique) (ownHeader : List String) (body : List Instruction) :
    List Instruction :=
  technique.headerOr ownHeader ++ body ++ technique.footer

end Technique
end Toolpath
