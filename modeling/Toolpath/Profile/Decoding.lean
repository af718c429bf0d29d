import Toolpath.Json.Reader
import Toolpath.Profile.Settings
import Toolpath.Profile.Spelled

/-! # Decoding profiles

A profile comes in four forms: spelled out, as a record of settings, as a list of the same settings,
and as a text that holds any of these.  Nothing at all is the default profile; what is none of the
four forms is the default profile with a warning.
-/
namespace Toolpath

namespace Profile

/-- A profile that is no text. -/
def ofStructure (value : Value) : Outcome Profile :=
  match SpelledProfile.ofValue? value with
  | some spelled => spelled.toProfile
  | none => match value with
    | .absent => pure defaults
    | .null => pure defaults
    | .list [] => pure defaults
    | .list items => (Settings.ofList items).toProfile
    | .record [] => pure defaults
    | .record fields => (Settings.ofRecord (.record fields)).toProfile
    | .curve points => (Settings.ofRecord (.curve points)).toProfile
    | other => do
      Outcome.warn (.unsupportedProfile other.kindName)
      return defaults

/-- A profile carried as text.  A text that holds neither a list nor a record is the default
profile, with a warning. -/
def ofText (text : String) : Outcome Profile :=
  match Json.ofEitherText? text with
  | some (.list items) => ofStructure (.ofJson (.list items))
  | some (.record fields) => ofStructure (.ofJson (.record fields))
  | _ => do
    Outcome.warn .undecodableText
    return defaults

/-- A profile in any form; an empty text is the default profile. -/
def ofValue (value : Value) : Outcome Profile :=
  match value with
  | .text text => if text.isEmpty then pure defaults else ofText text
  | _ => ofStructure value

end Profile
end Toolpath
