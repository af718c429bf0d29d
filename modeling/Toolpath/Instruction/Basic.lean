import Toolpath.Double.Basic
import Toolpath.Slot

/-! # Instructions

The instructions of a machine program: comments, lines passed on as they are, and commands with
lettered number fields.
-/
namespace Toolpath

/-- What a field of a command sets. -/
inductive Letter
  | x
  | y
  | z
  | e
  | f
  | s
  deriving DecidableEq, Repr

/-- The character a letter is written as. -/
def Letter.char : Letter → Char
  | x => 'X'
  | y => 'Y'
  | z => 'Z'
  | e => 'E'
  | f => 'F'
  | s => 'S'

/-- A number in a command.  Where no number of places is asked for it is written plainly. -/
structure Field where
  letter : Letter
  value : Double
  places : Slot Double
  deriving DecidableEq

/-- One line of a machine program. -/
inductive Instruction
  | comment (text : String)
  | verbatim (line : String)
  | command (code : String) (fields : List Field) (note : Slot String)
  deriving DecidableEq

/-- The digits after the point of an extrusion total. -/
def extrusionPlaces : Nat := 4

/-- A number to be written plainly. -/
def Field.plain (letter : Letter) (value : Double) : Field := { letter, value, places := .missing }

/-- A total of extrusion. -/
def Field.extrusion (total : Double) : Field :=
  { letter := .e, value := total, places := .filled (.ofNat extrusionPlaces) }

/-- What a linear move sets; the rest stays as it is. -/
structure MoveTarget where
  x : Option Double := none
  y : Option Double := none
  z : Option Double := none
  extrusion : Option Double := none
  feedRate : Option Double := none
  deriving DecidableEq

/-- The fields of a move, always in this order. -/
def MoveTarget.fields (target : MoveTarget) : List Field :=
  (target.x.map (Field.plain .x)).toList ++
  (target.y.map (Field.plain .y)).toList ++
  (target.z.map (Field.plain .z)).toList ++
  (target.extrusion.map Field.extrusion).toList ++
  (target.feedRate.map (Field.plain .f)).toList

namespace Instruction

/-- A move in a straight line. -/
def linearMove (target : MoveTarget) (note : Option String) : Instruction :=
  command "G1" target.fields (.ofOption note)

/-- The fields of a command; the other instructions have none. -/
def fields : Instruction → List Field
  | command _ fields _ => fields
  | _ => []

/-- Whether a command has a field with a letter. -/
def hasField (instruction : Instruction) (letter : Letter) : Bool :=
  instruction.fields.any (·.letter == letter)

/-- The number of the first field with a letter. -/
def fieldValue? (instruction : Instruction) (letter : Letter) : Option Double :=
  (instruction.fields.find? (·.letter == letter)).map (·.value)

end Instruction
end Toolpath
