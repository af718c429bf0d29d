import Toolpath.Decimal.Fixed
import Toolpath.Outcome

/-! # Program lines

How an instruction is written: one line, its parts separated by single spaces, a note behind a
semicolon.  A number has to be finite; the first field that is not stops the line.
-/
namespace Toolpath

/-- A number in plain notation, with at most six places. -/
def Double.plain? (x : Double) : Except Fault String :=
  if x.isFinite then .ok x.plainText else .error (.numberNotFinite x)

/-- The largest number of places a number can be written with. -/
def placesLimit : Int := 100

/-- The places that a number asks for: as many as its whole part says, if so many can be written.
NaN asks for no digit behind the point. -/
def Double.asPlaces? (x : Double) : Option Nat :=
  match x with
  | .nan => some 0
  | .infinite _ => none
  | .finite _ _ => if 0 ≤ x.truncate ∧ x.truncate ≤ placesLimit then some x.truncate.toNat else none

/-- A finite number with the places asked for, if any are. -/
def Double.withPlaces? (x : Double) (places : Option Double) : Except Fault String :=
  match places with
  | none => .ok x.plainText
  | some places => match places.asPlaces? with
    | some places => .ok (x.fixedText places)
    | none => .error .placesOutOfRange

/-- A field as its letter and its number. -/
def Field.write (field : Field) : Except Fault String :=
  if field.value.isFinite then
    (field.value.withPlaces? field.places.value?).map fun number =>
      field.letter.char.toString ++ number
  else .error (.fieldNotFinite field.letter field.value)

/-- What stands in front of a comment. -/
def commentMark : String := "; "

/-- A note behind a command; an empty one is left out. -/
def noteSuffix : Option String → String
  | none => ""
  | some note => if note.isEmpty then "" else " " ++ commentMark ++ note

namespace Instruction

/-- The line of an instruction. -/
def write : Instruction → Except Fault String
  | comment text => .ok (commentMark ++ text)
  | verbatim line => .ok line
  | command code fields note => do
    let written ← fields.mapM Field.write
    return String.intercalate " " (code :: written) ++ noteSuffix note.value?

/-- The lines of a program. -/
def writeAll (instructions : List Instruction) : Except Fault (List String) :=
  instructions.mapM write

end Instruction
end Toolpath
