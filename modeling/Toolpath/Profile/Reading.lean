import Toolpath.Decimal.Numeral
import Toolpath.Outcome
import Toolpath.Profile.Basic

/-! # Reading the parts of a profile

Numbers in a profile are read leniently.  One that is missing takes its default, and so, with a
warning, does one that cannot be read; `readNumber` is the only place where that is decided.
-/
namespace Toolpath

/-- The number that a value denotes, if it is one that can be computed with. -/
def Value.number? (value : Value) : Option Double :=
  let read := match value with
    | .number x => some x
    | .text s => Double.ofText? s
    | _ => none
  read.filter Double.isFinite

/-- A number under a label.  One that is missing is silently the default. -/
def readNumber (label : String) (value : Value) (default : Double) : Outcome Double :=
  if value.isPresent then
    match value.number? with
    | some x => pure x
    | none => do
      let shown ← Outcome.shown value
      Outcome.warn (.unreadableNumber label shown default)
      return default
  else pure default

/-- The two kinds of bed. -/
inductive BedKind
  | rectangular
  | cylindrical
  deriving DecidableEq, Repr

/-- The bed kind with a name. -/
def BedKind.ofName? : String → Option BedKind
  | "bed.rectangular" => some rectangular
  | "bed.cylindrical" => some cylindrical
  | _ => none

end Toolpath
