import Toolpath.Proofs.DecodingFaults
import Toolpath.Proofs.Encodings
import Toolpath.Proofs.PrintedJson
import Toolpath.Proofs.SoundProfiles

/-! # Ambiguous beds

Decoding a profile stops where the kind of bed cannot be told.  That is so for settings whose
printer is none of the known ones, and for settings without a printer that give both a radius and an
extent along X or Y (`Settings.Ambiguous`).  As long as every value can be shown, decoding stops
nowhere else, and a profile it does not stop at has the bed that is named
(`Profile.ofValue_ambiguous_iff`).
-/
namespace Toolpath

/-! ## Values that can be shown -/

/-- A value in which no record has a field that hides how records are shown.  What a curve converts
to is no part of the value. -/
inductive Value.Showable : Value → Prop
  | absent : Showable .absent
  | null : Showable .null
  | bool (b : Bool) : Showable (.bool b)
  | number (x : Double) : Showable (.number x)
  | integer (i : Int) : Showable (.integer i)
  | text (s : String) : Showable (.text s)
  | list {items : List Value} (h : ∀ item ∈ items, Showable item) : Showable (.list items)
  | record {fields : List (String × Value)} (hown : ownTextField ∉ fields.map Prod.fst)
    (h : ∀ field ∈ fields, Showable field.2) : Showable (.record fields)
  | curve (points : Option Value) : Showable (.curve points)

namespace Value.Showable
variable {value : Value}

theorem not_textless (h : value.Showable) : ¬value.Textless := by
  intro htextless
  induction htextless with
  | record hlookup =>
    cases h with
    | record hown _ =>
      obtain ⟨field, hfield, hname⟩ := List.lookup_isSome_iff.mp hlookup
      exact hown (List.mem_map.mpr ⟨field, hfield, (eq_of_beq hname).symm⟩)
  | list hmem _ ih =>
    cases h with
    | list hitems => exact ih (hitems _ hmem)

theorem field (h : value.Showable) (name : String) : (value.field name).Showable := by
  cases h with
  | @record fields _ hfields =>
    rw [Value.field]
    cases hlookup : fields.lookup name with
    | none => exact .absent
    | some found =>
      obtain ⟨before, behind, hsplit, -⟩ := List.lookup_eq_some_iff.mp hlookup
      refine hfields (name, found) ?_
      rw [hsplit]
      exact List.mem_append_right _ List.mem_cons_self
  | _ => exact .absent

theorem item {items : List Value} (h : (Value.list items).Showable) (position : Nat) :
    (Value.item items position).Showable := by
  rw [Value.item]
  cases hitem : items[position]? with
  | none => exact .absent
  | some found =>
    cases h with
    | list hitems => exact hitems found (List.mem_of_getElem? hitem)

end Value.Showable

/-- Settings in which everything that decoding may show can be shown. -/
structure Settings.Showable (settings : Settings) : Prop where
  mode : settings.mode.Showable
  printer : settings.printer.Showable
  parameters : settings.parameters.Showable
  extent : ∀ extent, (settings.extent extent).Showable

theorem Settings.Showable.ofList {items : List Value} (h : (Value.list items).Showable) :
    (Settings.ofList items).Showable where
  mode := h.item 0
  printer := h.item 1
  parameters := h.item 2
  extent extent := by cases extent <;> exact h.item _

theorem Settings.Showable.ofRecord {value : Value} (h : value.Showable) :
    (Settings.ofRecord value).Showable where
  mode := h.field "Mode"
  printer := h.field "PrinterType"
  parameters := h.field "Params"
  extent extent := by cases extent <;> exact h.field _

/-! ## Naming a kind of bed -/

/-- The keywords of the printers with some kind of bed. -/
def BedKind.keywords : BedKind → List String
  | rectangular => ["cartesian", "rectangular"]
  | cylindrical => ["delta", "cylindrical"]

theorem BedKind.ofKeyword?_eq_some_iff {text : String} {kind : BedKind} :
    ofKeyword? text = some kind ↔ keyword text ∈ kind.keywords := by
  unfold ofKeyword?
  cases kind <;> simp only [keywords, List.mem_cons, List.not_mem_nil, or_false] <;> split <;>
    simp_all

theorem BedKind.ofName?_eq_some_iff {text : String} {kind : BedKind} :
    ofName? text = some kind ↔ text = kind.name := by
  unfold ofName?
  cases kind <;> simp only [name] <;> split <;> simp_all

theorem Mode.ofName?_eq_some_iff {text : String} {mode : Mode} :
    ofName? text = some mode ↔ text = mode.name := by
  unfold ofName?
  cases mode <;> simp only [name] <;> split <;> simp_all

namespace Settings
variable (settings : Settings)

/-- The printer is one with some kind of bed: a text that is one of its keywords once it is trimmed
and in lower case. -/
def NamesPrinter (kind : BedKind) : Prop :=
  ∃ text, settings.printer = .text text ∧ keyword text ∈ kind.keywords

/-- Settings from which the kind of bed cannot be told: the printer is none of the known ones, or
there is none and both kinds of bed are sized. -/
inductive Ambiguous : Prop
  | unknownPrinter (hpresent : settings.printer.isPresent = true)
    (hunknown : ∀ kind, ¬settings.NamesPrinter kind)
  | bothKinds (hmissing : settings.printer.isPresent = false)
    (hradius : settings.bedRadius.isPresent = true)
    (hextent : settings.bedX.isPresent = true ∨ settings.bedY.isPresent = true)

variable {settings}

theorem NamesPrinter.eq {kind other : BedKind} (h : settings.NamesPrinter kind)
    (hother : settings.NamesPrinter other) : other = kind := by
  obtain ⟨text, htext, hkeyword⟩ := h
  obtain ⟨again, hagain, hother⟩ := hother
  rw [htext] at hagain
  cases hagain
  rw [← BedKind.ofKeyword?_eq_some_iff] at hkeyword hother
  exact Option.some.inj (hother.symm.trans hkeyword)

theorem NamesPrinter.namesBedKind {kind : BedKind} (h : settings.NamesPrinter kind) :
    settings.NamesBedKind kind := by
  obtain ⟨text, htext, hkeyword⟩ := h
  exact .inl ⟨text, htext, BedKind.ofKeyword?_eq_some_iff.mpr hkeyword⟩

/-- Where the kind of bed can be told, it is that of the printer, or rectangular without one. -/
theorem exists_namesBedKind (h : ¬settings.Ambiguous) :
    ∃ kind, settings.NamesBedKind kind ∧ (settings.NamesPrinter kind ∨
      ((∀ other, ¬settings.NamesPrinter other) ∧ kind = .rectangular)) := by
  by_cases hnamed : ∃ kind, settings.NamesPrinter kind
  · obtain ⟨kind, hkind⟩ := hnamed
    exact ⟨kind, hkind.namesBedKind, .inl hkind⟩
  · rw [not_exists] at hnamed
    have hmissing : settings.printer.isPresent = false := by
      by_contra hpresent
      exact h (.unknownPrinter (Bool.eq_true_of_not_eq_false hpresent) hnamed)
    refine ⟨.rectangular, .inr ⟨hmissing, rfl, ?_⟩, .inr ⟨hnamed, rfl⟩⟩
    by_contra hsized
    rw [not_or, not_and_or] at hsized
    simp only [Bool.not_eq_false] at hsized
    exact h (.bothKinds hmissing hsized.1 hsized.2)

/-- Where the kind of bed cannot be told, that is at fault. -/
theorem Ambiguous.exists_fault (h : settings.Ambiguous) (hshown : ¬settings.printer.Textless) :
    ∃ fault, settings.readBedKind.result = .error fault ∧
      fault.code? = some "config_bed_ambiguous" := by
  cases h with
  | unknownPrinter hpresent hunknown =>
    obtain ⟨shown, hshown⟩ := Value.exists_shown_eq hshown
    refine ⟨.unknownPrinter shown settings.printer, ?_, rfl⟩
    unfold readBedKind
    rw [if_pos hpresent, hshown]
    split
    · rename_i text htext
      split
      · rename_i kind hkind
        exact absurd ⟨text, htext, BedKind.ofKeyword?_eq_some_iff.mp hkind⟩ (hunknown kind)
      · rfl
    · rfl
  | bothKinds hmissing hradius hextent =>
    refine ⟨.ambiguousBed settings.bedX settings.bedY settings.bedRadius, ?_, rfl⟩
    have hboth : (settings.bedRadius.isPresent &&
        (settings.bedX.isPresent || settings.bedY.isPresent)) = true := by
      rw [Bool.and_eq_true, Bool.or_eq_true]
      exact ⟨hradius, hextent⟩
    unfold readBedKind
    rw [hmissing, if_neg Bool.false_ne_true, if_pos hboth]
    rfl

end Settings

/-! ## Decoding settings -/

theorem Bed.kind_ofNumbers (kind : BedKind) (sizes : List Double) :
    (ofNumbers kind sizes).kind = kind := by
  unfold ofNumbers
  split <;> rfl

theorem readsUnless_readAll_of_showable {readings : List Reading}
    (h : ∀ value ∈ readings.map Reading.value, value.Showable) :
    ∃ numbers, (Reading.readAll readings).result = .ok numbers := by
  refine (readsUnless_readAll readings).reads ?_
  rintro ⟨value, hvalue, htextless⟩
  exact (h value hvalue).not_textless htextless

namespace Settings
variable {settings : Settings}

/-- What comes before the kind of bed is told does not stop decoding. -/
theorem Showable.exists_result_toProfile (h : settings.Showable) :
    ∃ (mode : Mode) (parameters : List Double), settings.toProfile.result =
      (settings.readBedKind >>= fun kind => Reading.readAll (settings.sizeReadings kind) >>=
        fun sizes => pure (Profile.ofNumbers mode kind settings.bedShape parameters sizes) :
        Outcome Profile).result := by
  obtain ⟨mode, hmode⟩ := settings.readsUnless_readMode.reads h.mode.not_textless
  have hreadings : ∀ value ∈ (settings.parameterReadings mode).map Reading.value,
      value.Showable := by
    rw [parameterReadings, Mode.map_value_readings]
    intro value hvalue
    obtain ⟨parameter, -, rfl⟩ := List.mem_map.mp hvalue
    exact h.parameters.field parameter.key
  obtain ⟨parameters, hparameters⟩ := readsUnless_readAll_of_showable hreadings
  refine ⟨mode, parameters, ?_⟩
  rw [toProfile_eq, Outcome.result_bind_of_ok hmode, Outcome.result_bind_of_ok hparameters]

/-- Settings that name their kind of bed are a profile with a bed of that kind. -/
theorem Showable.exists_profile (h : settings.Showable) {kind : BedKind}
    (hkind : settings.NamesBedKind kind) :
    ∃ profile, settings.toProfile.result = .ok profile ∧ profile.bed.kind = kind := by
  have hreadings : ∀ value ∈ (settings.sizeReadings kind).map Reading.value, value.Showable := by
    rw [sizeReadings, BedKind.map_value_readings]
    intro value hvalue
    obtain ⟨extent, -, rfl⟩ := List.mem_map.mp hvalue
    exact h.extent extent
  obtain ⟨sizes, hsizes⟩ := readsUnless_readAll_of_showable hreadings
  obtain ⟨mode, parameters, hresult⟩ := h.exists_result_toProfile
  rw [hkind.readBedKind_eq, pure_bind, Outcome.result_bind_of_ok hsizes] at hresult
  exact ⟨_, hresult, Bed.kind_ofNumbers kind sizes⟩

/-- Ambiguous settings are no profile. -/
theorem Showable.exists_fault (h : settings.Showable) (hambiguous : settings.Ambiguous) :
    ∃ fault, settings.toProfile.result = .error fault ∧
      fault.code? = some "config_bed_ambiguous" := by
  obtain ⟨fault, hfault, hcode⟩ := hambiguous.exists_fault h.printer.not_textless
  obtain ⟨mode, parameters, hresult⟩ := h.exists_result_toProfile
  rw [Outcome.result_bind_of_error hfault] at hresult
  exact ⟨fault, hresult, hcode⟩

end Settings

/-! ## Forms of profiles -/

/-- A value that names a mode and a kind of bed by their own names, where a profile that is spelled
out has them. -/
structure Value.SpellsOut (value : Value) (mode : Mode) (kind : BedKind) : Prop where
  mode : (value.field "process").field "mode" = .text mode.name
  kind : (value.field "bed").field "kind" = .text kind.name

theorem Value.SpellsOut.ofValue?_eq {value : Value} {mode : Mode} {kind : BedKind}
    (h : value.SpellsOut mode kind) :
    SpelledProfile.ofValue? value = some {
      mode
      technique := value.field "process"
      bedKind := kind
      bed := value.field "bed"
      bedShape := value.field "bedShape" } := by
  rw [SpelledProfile.ofValue?, h.mode, h.kind]
  simp only [Mode.ofName?_name, BedKind.ofName?_name, bind, Option.bind_some, pure]

/-- Only a value that names a mode and a kind of bed is spelled out. -/
theorem SpelledProfile.ofValue?_eq_none {value : Value}
    (h : ∀ mode kind, ¬value.SpellsOut mode kind) : ofValue? value = none := by
  rw [Option.eq_none_iff_forall_ne_some]
  intro spelled hspelled
  unfold ofValue? at hspelled
  dsimp only at hspelled
  split at hspelled
  · rename_i modeName hmodeName
    obtain ⟨mode, hmode, hspelled⟩ := Option.bind_eq_some_iff.mp hspelled
    split at hspelled
    · rename_i kindName hkindName
      obtain ⟨kind, hkind, -⟩ := Option.bind_eq_some_iff.mp hspelled
      rw [Mode.ofName?_eq_some_iff.mp hmode] at hmodeName
      rw [BedKind.ofName?_eq_some_iff.mp hkind] at hkindName
      exact h mode kind ⟨hmodeName, hkindName⟩
    · cases hspelled
  · cases hspelled

/-- The settings in a value: a list has them by position, and a record that is not spelled out has
them under their keys, if there is anything in it at all. -/
inductive Settings.HeldBy : Settings → Value → Prop
  | list {items : List Value} (h : items ≠ []) : HeldBy (ofList items) (.list items)
  | record {fields : List (String × Value)} (h : fields ≠ [])
    (hspelled : ∀ mode kind, ¬(Value.record fields).SpellsOut mode kind) :
    HeldBy (ofRecord (.record fields)) (.record fields)

theorem Settings.HeldBy.showable {settings : Settings} {value : Value} (h : settings.HeldBy value)
    (hshowable : value.Showable) : settings.Showable := by
  cases h with
  | list _ => exact .ofList hshowable
  | record _ _ => exact .ofRecord hshowable

theorem Settings.HeldBy.not_spellsOut {settings : Settings} {value : Value}
    (h : settings.HeldBy value) (mode : Mode) (kind : BedKind) : ¬value.SpellsOut mode kind := by
  cases h with
  | list _ => exact fun hspelled => by cases hspelled.mode
  | record _ hspelled => exact hspelled mode kind

/-- A value holds its settings in one way. -/
theorem Settings.HeldBy.eq {settings other : Settings} {value : Value} (h : settings.HeldBy value)
    (hother : other.HeldBy value) : other = settings := by
  cases h with
  | list _ => cases hother; rfl
  | record _ _ => cases hother; rfl

namespace Profile

/-- What a text carries, where it can be read; everything else carries itself. -/
def carried : Value → Value
  | .text text => (Json.ofEitherText? text).elim (.text text) Value.ofJson
  | value => value

/-- A text is decoded like what it carries, but for the warnings. -/
theorem result_ofValue (value : Value) :
    (ofValue value).result = (ofStructure (carried value)).result := by
  cases value with
  | text text =>
    rw [carried, ofValue]
    split
    · rename_i hempty
      rw [String.isEmpty_iff.mp hempty, Json.ofEitherText?_empty]
      rfl
    · unfold ofText
      cases Json.ofEitherText? text with
      | none => rfl
      | some json => cases json <;> rfl
  | _ => rfl

theorem ofStructure_of_heldBy {settings : Settings} {value : Value} (h : settings.HeldBy value) :
    ofStructure value = settings.toProfile := by
  rw [ofStructure_eq, SpelledProfile.ofValue?_eq_none h.not_spellsOut]
  cases h <;> rfl

/-- A value that is neither spelled out nor holds settings stands for the default profile. -/
theorem result_ofStructure_of_neither {value : Value}
    (hspelled : ∀ mode kind, ¬value.SpellsOut mode kind)
    (hheld : ∀ settings : Settings, ¬settings.HeldBy value) :
    (ofStructure value).result = .ok defaults := by
  unfold ofStructure
  rw [SpelledProfile.ofValue?_eq_none hspelled]
  cases value with
  | list items =>
    cases items with
    | nil => rfl
    | cons item items => exact absurd (.list (List.cons_ne_nil item items)) (hheld _)
  | record fields =>
    cases fields with
    | nil => rfl
    | cons field fields =>
      exact absurd (.record (List.cons_ne_nil field fields) hspelled) (hheld _)
  | _ => rfl

/-- A value that is spelled out is a profile with the bed that it names. -/
theorem exists_profile_of_spellsOut {value : Value} (hshowable : value.Showable) {mode : Mode}
    {kind : BedKind} (h : value.SpellsOut mode kind) :
    ∃ profile, (ofStructure value).result = .ok profile ∧ profile.bed.kind = kind := by
  have hparameters : ∀ part ∈ mode.parameters.map fun parameter =>
      (value.field "process").field parameter.name, part.Showable := by
    intro part hpart
    obtain ⟨parameter, -, rfl⟩ := List.mem_map.mp hpart
    exact (hshowable.field "process").field parameter.name
  have hsizes : ∀ part ∈ kind.extents.map fun extent =>
      (value.field "bed").field extent.name, part.Showable := by
    intro part hpart
    obtain ⟨extent, -, rfl⟩ := List.mem_map.mp hpart
    exact (hshowable.field "bed").field extent.name
  rw [← Mode.map_value_readings mode fun parameter => "process." ++ parameter.name] at hparameters
  rw [← BedKind.map_value_readings kind fun extent => "bed." ++ extent.name] at hsizes
  obtain ⟨parameters, hparameters⟩ := readsUnless_readAll_of_showable hparameters
  obtain ⟨sizes, hsizes⟩ := readsUnless_readAll_of_showable hsizes
  refine ⟨ofNumbers mode kind (value.field "bedShape") parameters sizes, ?_,
    Bed.kind_ofNumbers kind sizes⟩
  rw [ofStructure_eq, h.ofValue?_eq, Option.map_some, Option.getD_some,
    SpelledProfile.toProfile_eq, ofReadings, SpelledProfile.parameterReadings,
    SpelledProfile.sizeReadings, Outcome.result_bind_of_ok hparameters,
    Outcome.result_bind_of_ok hsizes]
  rfl

/-! ## When decoding stops -/

/-- The kind of bed cannot be told from the settings in a value, or in what it carries. -/
def IsAmbiguous (value : Value) : Prop :=
  ∃ settings : Settings, settings.HeldBy (carried value) ∧ settings.Ambiguous

/-- A value names a kind of bed, by the name of the kind or by a printer. -/
inductive NamesBed (value : Value) (kind : BedKind) : Prop
  | spelledOut {mode : Mode} (h : value.SpellsOut mode kind)
  | settings {settings : Settings} (hheld : settings.HeldBy value) (h : settings.NamesPrinter kind)

/-- A value names at most one kind of bed. -/
theorem NamesBed.eq {value : Value} {kind other : BedKind} (h : NamesBed value kind)
    (hother : NamesBed value other) : other = kind := by
  cases h with
  | spelledOut h =>
    cases hother with
    | spelledOut hother =>
      have hname : Value.text other.name = .text kind.name := hother.kind.symm.trans h.kind
      exact Option.some.inj <| by
        rw [← BedKind.ofName?_name other, Value.text.inj hname, BedKind.ofName?_name]
    | settings hheld _ => exact absurd h (hheld.not_spellsOut _ _)
  | settings hheld h =>
    cases hother with
    | spelledOut hother => exact absurd hother (hheld.not_spellsOut _ _)
    | settings hheld' hother =>
      rw [hheld.eq hheld'] at hother
      exact h.eq hother

/-- What a profile is like that has been read from a value: every number is finite, the technique
has the parameters of its mode, a bed shape has been rounded, and the bed is of the kind that is
named, or rectangular if none is. -/
structure ReadFrom (profile : Profile) (value : Value) : Prop where
  technique : profile.technique.IsFinite
  fields : ∃ fields, profile.technique.toJson = .record fields ∧
    fields.map Prod.fst = "mode" :: profile.technique.mode.parameters.map Parameter.name
  bed : profile.bed.IsFinite
  bedShape : ∀ shape ∈ profile.bedShape, shape.IsRounded
  named : ∀ kind, NamesBed value kind → profile.bed.kind = kind
  unnamed : (∀ kind, ¬NamesBed value kind) → profile.bed.kind = .rectangular

theorem IsSound.readFrom {profile : Profile} {value : Value} (h : profile.IsSound)
    (hkind : NamesBed value profile.bed.kind ∨
      ((∀ kind, ¬NamesBed value kind) ∧ profile.bed.kind = .rectangular)) :
    profile.ReadFrom value where
  technique := h.technique
  fields := by
    refine ⟨_, rfl, ?_⟩
    rw [List.map_cons, ← profile.technique.map_fst_parameters, List.map_map, List.map_map]
    rfl
  bed := h.bed
  bedShape := h.bedShape
  named kind hnamed := by
    rcases hkind with hkind | ⟨hnone, -⟩
    · exact hnamed.eq hkind
    · exact absurd hnamed (hnone kind)
  unnamed hnone := by
    rcases hkind with hkind | ⟨-, hkind⟩
    · exact absurd hkind (hnone _)
    · exact hkind

/-- A value whose settings are not ambiguous, if it holds any, is a profile. -/
theorem exists_profile_of_not_ambiguous {value : Value} (hshowable : value.Showable)
    (h : ∀ settings : Settings, settings.HeldBy value → ¬settings.Ambiguous) :
    ∃ profile, (ofStructure value).result = .ok profile ∧ (NamesBed value profile.bed.kind ∨
      ((∀ kind, ¬NamesBed value kind) ∧ profile.bed.kind = .rectangular)) := by
  -- the value is spelled out, or it holds settings, or it is the default profile
  by_cases hspelled : ∃ mode kind, value.SpellsOut mode kind
  · obtain ⟨mode, kind, hspelled⟩ := hspelled
    obtain ⟨profile, hprofile, rfl⟩ := exists_profile_of_spellsOut hshowable hspelled
    exact ⟨profile, hprofile, .inl (.spelledOut hspelled)⟩
  by_cases hheld : ∃ settings : Settings, settings.HeldBy value
  · obtain ⟨settings, hheld⟩ := hheld
    obtain ⟨kind, hkind, hprinter⟩ := Settings.exists_namesBedKind (h settings hheld)
    obtain ⟨profile, hprofile, rfl⟩ := (hheld.showable hshowable).exists_profile hkind
    refine ⟨profile, by rw [ofStructure_of_heldBy hheld, hprofile], ?_⟩
    rcases hprinter with hprinter | ⟨hnone, hrectangular⟩
    · exact .inl (.settings hheld hprinter)
    · refine .inr ⟨fun kind hnamed => ?_, hrectangular⟩
      cases hnamed with
      | spelledOut hnamed => exact hheld.not_spellsOut _ _ hnamed
      | settings hother hnamed =>
        rw [hheld.eq hother] at hnamed
        exact hnone kind hnamed
  · simp only [not_exists] at hspelled hheld
    refine ⟨defaults, result_ofStructure_of_neither hspelled hheld, .inr ⟨?_, rfl⟩⟩
    intro kind hnamed
    cases hnamed with
    | spelledOut hnamed => exact hspelled _ kind hnamed
    | settings hother _ => exact hheld _ hother

/-- **Where decoding stops.**  If everything can be shown, decoding stops because the kind of bed
cannot be told exactly where the settings in the value are ambiguous, and everywhere else there is a
profile. -/
theorem ofValue_ambiguous_iff {value : Value} (h : (carried value).Showable) :
    ((∃ fault, (ofValue value).result = .error fault ∧
      fault.code? = some "config_bed_ambiguous") ↔ IsAmbiguous value) ∧
    (¬IsAmbiguous value →
      ∃ profile, (ofValue value).result = .ok profile ∧ profile.ReadFrom (carried value)) := by
  have hprofile (hclear : ¬IsAmbiguous value) :
      ∃ profile, (ofValue value).result = .ok profile ∧ profile.ReadFrom (carried value) := by
    obtain ⟨profile, hresult, hkind⟩ := exists_profile_of_not_ambiguous h
      fun settings hheld hambiguous => hclear ⟨settings, hheld, hambiguous⟩
    rw [← result_ofValue] at hresult
    exact ⟨profile, hresult, (yields_ofValue value profile hresult).readFrom hkind⟩
  refine ⟨⟨?_, ?_⟩, hprofile⟩
  · rintro ⟨fault, hfault, -⟩
    by_contra hclear
    obtain ⟨profile, hresult, -⟩ := hprofile hclear
    rw [hfault] at hresult
    cases hresult
  · rintro ⟨settings, hheld, hambiguous⟩
    rw [result_ofValue, ofStructure_of_heldBy hheld]
    exact (hheld.showable h).exists_fault hambiguous

/-- A text that sizes both kinds of bed, though one size is no number. -/
def ambiguousText : String := "\x7b\"BedX\":200,\"BedRadius\":\"wide\"\x7d"

theorem carried_ambiguousText : carried (.text ambiguousText) =
    .record [("BedX", .number 200), ("BedRadius", .text "wide")] := by
  have hchars : Json.toChars none (.record [("BedX", .number 200), ("BedRadius", .text "wide")]) =
      ambiguousText.toList := by
    decide +kernel
  have hnames : (Json.record [("BedX", .number 200), ("BedRadius", .text "wide")]).NamesDiffer := by
    refine .record (by decide) fun field hfield => ?_
    simp only [List.mem_cons, List.not_mem_nil, or_false] at hfield
    rcases hfield with rfl | rfl
    · exact .number 200
    · exact .text "wide"
  have hread := Json.ofEitherText?_toText hnames
  rw [Json.toText, hchars, String.ofList_toList] at hread
  have hfinite : Double.isFinite 200 = true := by decide +kernel
  have hsize : Double.unsignedZero 200 = 200 := by decide +kernel
  simp only [carried, hread, Json.readBack, Json.readBackFields, if_pos hfinite, hsize,
    Option.elim_some, Value.ofJson, Value.ofJsonFields]

/-- It stops decoding. -/
theorem ofValue_ambiguousText :
    (carried (.text ambiguousText)).Showable ∧ IsAmbiguous (.text ambiguousText) ∧
      ∃ fault, (ofValue (.text ambiguousText)).result = .error fault ∧
        fault.code? = some "config_bed_ambiguous" := by
  have hshowable : (carried (.text ambiguousText)).Showable := by
    rw [carried_ambiguousText]
    refine .record (by decide) fun field hfield => ?_
    simp only [List.mem_cons, List.not_mem_nil, or_false] at hfield
    rcases hfield with rfl | rfl
    · exact .number 200
    · exact .text "wide"
  have hambiguous : IsAmbiguous (.text ambiguousText) := by
    rw [IsAmbiguous, carried_ambiguousText]
    refine ⟨_, .record (List.cons_ne_nil _ _) fun mode kind hspelled => ?_,
      .bothKinds rfl rfl (.inl rfl)⟩
    cases hspelled.mode
  exact ⟨hshowable, hambiguous, (ofValue_ambiguous_iff hshowable).1.mpr hambiguous⟩

end Profile
end Toolpath
