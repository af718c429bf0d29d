import Toolpath.Instruction.Basic
import Toolpath.Value

/-! # Warnings, faults and outcomes

Reading loose input never stops at a value that can be replaced by a default: it warns and goes on.
It stops at a fault.  An `Outcome` is the result of a computation together with the warnings it
gave, in order; a fault does not take back the warnings before it.
-/
namespace Toolpath

/-- What was read differently from what was written. -/
inductive Warning
  | unknownMode (shown : String)
  | unreadableNumber (label : String) (shown : String) (fallback : Double)
  | undecodableText
  | unsupportedProfile (kind : String)
  | outOfBounds (status : String)
  deriving DecidableEq

/-- The name that every warning begins with. -/
def Warning.source : String := "plotcast: "

/-- The line a warning prints. -/
def Warning.message : Warning → String
  | unknownMode shown => source ++ "Unknown process mode " ++ shown ++ "; using motion-only."
  | unreadableNumber label shown fallback =>
    source ++ "Ignoring non-numeric " ++ label ++ " (" ++ shown ++ "); using " ++
      fallback.shortestText ++ "."
  | undecodableText => source ++ "Could not decode profile text; using the default profile."
  | unsupportedProfile kind =>
    source ++ "Unsupported profile input of type " ++ kind ++ "; using the default profile."
  | outOfBounds status => source ++ status

/-- Why there is no result. -/
inductive Fault
  /-- No printer is named, and both a radius and an extent along X or Y are given. -/
  | ambiguousBed (bedX bedY bedRadius : Value)
  /-- A printer is named that is none of the known ones. -/
  | unknownPrinter (shown : String) (printer : Value)
  /-- A value that has no text had to be shown. -/
  | unprintable
  /-- A field of a command holds NaN or an infinity. -/
  | fieldNotFinite (letter : Letter) (value : Double)
  /-- A number to be written is NaN or an infinity. -/
  | numberNotFinite (value : Double)
  /-- A number was to be written with fewer than 0 or more than 100 places. -/
  | placesOutOfRange

/-- What is said of a fault. -/
def Fault.message : Fault → String
  | ambiguousBed _ _ _ =>
    "Printer type is missing and the profile carries both a bed radius and bed X/Y extents"
  | unknownPrinter shown _ => "Unknown printer type " ++ shown
  | unprintable => "Cannot convert object to primitive value"
  | fieldNotFinite letter value =>
    "Field " ++ letter.char.toString ++ " is not a finite number (" ++ value.shortestText ++ ")"
  | numberNotFinite value =>
    "Cannot write non-finite value " ++ value.shortestText ++ " into an instruction"
  | placesOutOfRange => "toFixed() digits argument must be between 0 and 100"

/-- The code of a fault in a machine profile. -/
def Fault.code? : Fault → Option String
  | ambiguousBed _ _ _ => some "config_bed_ambiguous"
  | unknownPrinter _ _ => some "config_bed_ambiguous"
  | _ => none

/-- A result or a fault, and the warnings given on the way to it. -/
@[ext]
structure Outcome (α : Type) where
  warnings : List Warning
  result : Except Fault α

namespace Outcome

/-- A result and no warning. -/
def done (value : α) : Outcome α := { warnings := [], result := .ok value }

/-- A result that may be a fault, and no warning. -/
def ofExcept (result : Except Fault α) : Outcome α := { warnings := [], result }

def fail (fault : Fault) : Outcome α := ofExcept (.error fault)

def warn (warning : Warning) : Outcome Unit := { warnings := [warning], result := .ok () }

/-- One computation after another. -/
def andThen (first : Outcome α) (next : α → Outcome β) : Outcome β :=
  match first.result with
  | .error fault => { warnings := first.warnings, result := .error fault }
  | .ok value =>
    let second := next value
    { warnings := first.warnings ++ second.warnings, result := second.result }

instance : Monad Outcome where
  pure := done
  bind := andThen

theorem bind_eq_andThen (first : Outcome α) (next : α → Outcome β) :
    first >>= next = first.andThen next := rfl

theorem andThen_done (outcome : Outcome α) : outcome.andThen done = outcome := by
  obtain ⟨warnings, result⟩ := outcome
  cases result with
  | error fault => rfl
  | ok value => exact Outcome.ext (List.append_nil _) rfl

theorem andThen_assoc (first : Outcome α) (second : α → Outcome β) (third : β → Outcome γ) :
    (first.andThen second).andThen third = first.andThen fun a => (second a).andThen third := by
  obtain ⟨warnings, result⟩ := first
  cases result with
  | error fault => rfl
  | ok value =>
    simp only [andThen]
    cases (second value).result with
    | error fault => rfl
    | ok value => simp [List.append_assoc]

instance : LawfulMonad Outcome :=
  LawfulMonad.mk' Outcome andThen_done (fun _ _ => rfl) andThen_assoc

/-- The result of an outcome, where there is one. -/
theorem result_eq_ok {outcome : Outcome α} {value : α} (h : outcome.result.toOption = some value) :
    outcome.result = .ok value := by
  cases hresult : outcome.result with
  | error fault =>
    rw [hresult] at h
    cases h
  | ok other =>
    rw [hresult] at h
    exact congrArg Except.ok (Option.some.inj h)

/-- The text of a value, where it needs one. -/
def shown (value : Value) : Outcome String :=
  match value.shown? with
  | some text => pure text
  | none => fail .unprintable

end Outcome
end Toolpath
