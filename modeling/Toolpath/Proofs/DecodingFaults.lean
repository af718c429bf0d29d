import Toolpath.Proofs.Readings

/-! # How decoding a profile can fail

Loose input has one fault that is meant to stop decoding: which kind of bed the machine has cannot
be told.  Everything else that is unreadable takes a default, with a warning that shows it.  A value
that has no text (`Value.Textless`) cannot be shown, and that is the other way to fail.  Decoding
asks for certain parts of its input (`Profile.asked`), and it keeps to the one fault exactly where
none of them is textless (`Profile.ofValue_decides_iff`).
-/
namespace Toolpath

/-! ## Values without a text -/

/-- A value that has no text: a record with a field that hides how records are shown, or a list
that holds such a value at any depth. -/
inductive Value.Textless : Value → Prop
  | record {fields : List (String × Value)} (h : (fields.lookup ownTextField).isSome = true) :
    Textless (.record fields)
  | list {items : List Value} {item : Value} (hmem : item ∈ items) (h : Textless item) :
    Textless (.list items)

namespace Value

theorem textless_list_iff {items : List Value} :
    (list items).Textless ↔ ∃ item ∈ items, item.Textless := by
  constructor
  · rintro ⟨⟩
    exact ⟨_, ‹_›, ‹_›⟩
  · rintro ⟨item, hmem, h⟩
    exact .list hmem h

theorem textless_record_iff {fields : List (String × Value)} :
    (record fields).Textless ↔ (fields.lookup ownTextField).isSome = true := by
  constructor
  · rintro ⟨⟩
    assumption
  · exact .record

theorem shownItems?_cons_eq_none_iff {item : Value} {items : List Value} :
    shownItems? (item :: items) = none ↔ item.shown? = none ∨ shownItems? items = none := by
  cases item with
  | absent => simp [shownItems?, shown?]
  | null => simp [shownItems?, shown?]
  | _ =>
    rw [shownItems?]
    · cases shown? _ <;> cases shownItems? items <;> simp
    all_goals exact nofun

mutual

/-- **Showing a value** fails exactly where it has no text. -/
theorem shown?_eq_none_iff (value : Value) : value.shown? = none ↔ value.Textless := by
  cases value with
  | list items => rw [shown?, Option.map_eq_none_iff, shownItems?_eq_none_iff, textless_list_iff]
  | record fields =>
    rw [shown?, textless_record_iff]
    split <;> simp_all
  | _ => exact iff_of_false nofun nofun

theorem shownItems?_eq_none_iff (items : List Value) :
    shownItems? items = none ↔ ∃ item ∈ items, item.Textless := by
  cases items with
  | nil => simp [shownItems?]
  | cons item items =>
    rw [shownItems?_cons_eq_none_iff, shown?_eq_none_iff, shownItems?_eq_none_iff,
      List.exists_mem_cons_iff]

end

/-- A value without a text is there, and it is no number. -/
theorem Textless.isPresent {value : Value} (h : value.Textless) : value.isPresent = true := by
  cases h <;> rfl

theorem Textless.number?_eq_none {value : Value} (h : value.Textless) : value.number? = none := by
  cases h <;> rfl

end Value

/-! ## Outcomes -/

namespace Outcome
variable {α β : Type} {first : Outcome α} {next : α → Outcome β} {P Q : Prop}

/-- What is at fault in the first of two computations is at fault in both. -/
theorem result_bind_of_error {fault : Fault} (h : first.result = .error fault) :
    (first >>= next).result = .error fault := by
  rw [bind_eq_andThen, andThen, h]

theorem result_bind_of_ok {value : α} (h : first.result = .ok value) :
    (first >>= next).result = (next value).result := by
  rw [bind_eq_andThen, andThen, h]

/-- There is a result unless some value could not be shown. -/
structure ReadsUnless (P : Prop) (outcome : Outcome α) : Prop where
  unprintable : P → outcome.result = .error .unprintable
  reads : ¬P → ∃ value, outcome.result = .ok value

theorem readsUnless_pure (value : α) : (pure value : Outcome α).ReadsUnless False :=
  ⟨False.elim, fun _ => ⟨value, rfl⟩⟩

theorem ReadsUnless.congr (h : first.ReadsUnless P) (hPQ : P ↔ Q) : first.ReadsUnless Q :=
  ⟨fun hQ => h.unprintable (hPQ.mpr hQ), fun hQ => h.reads fun hP => hQ (hPQ.mp hP)⟩

theorem ReadsUnless.bind (hfirst : first.ReadsUnless P)
    (hnext : ∀ value, first.result = .ok value → (next value).ReadsUnless Q) :
    (first >>= next).ReadsUnless (P ∨ Q) := by
  by_cases hP : P
  · exact ⟨fun _ => result_bind_of_error (hfirst.unprintable hP), fun h => absurd (.inl hP) h⟩
  · obtain ⟨value, hvalue⟩ := hfirst.reads hP
    constructor
    · intro hPQ
      rw [result_bind_of_ok hvalue]
      exact (hnext value hvalue).unprintable (hPQ.resolve_left hP)
    · intro hPQ
      rw [result_bind_of_ok hvalue]
      exact (hnext value hvalue).reads fun hQ => hPQ (.inr hQ)

/-- There is a result, or what is at fault is that the kind of bed cannot be told. -/
def Decides (outcome : Outcome α) : Prop :=
  (∃ value, outcome.result = .ok value) ∨
    ∃ fault, outcome.result = .error fault ∧ fault.code? = some "config_bed_ambiguous"

/-- The outcome decides unless some value could not be shown. -/
structure DecidesUnless (P : Prop) (outcome : Outcome α) : Prop where
  unprintable : P → outcome.result = .error .unprintable
  decides : ¬P → outcome.Decides

theorem decides_pure (value : α) : (pure value : Outcome α).Decides := .inl ⟨value, rfl⟩

theorem ReadsUnless.decidesUnless (h : first.ReadsUnless P) : first.DecidesUnless P :=
  ⟨h.unprintable, fun hP => .inl (h.reads hP)⟩

theorem DecidesUnless.congr (h : first.DecidesUnless P) (hPQ : P ↔ Q) : first.DecidesUnless Q :=
  ⟨fun hQ => h.unprintable (hPQ.mpr hQ), fun hQ => h.decides fun hP => hQ (hPQ.mp hP)⟩

/-- Where the first of two computations may not decide on a result, the second can only be unable to
show a value where the first has one. -/
theorem DecidesUnless.bind (hfirst : first.DecidesUnless P)
    (hnext : ∀ value, first.result = .ok value → (next value).DecidesUnless Q)
    (hQ : Q → ∃ value, first.result = .ok value) : (first >>= next).DecidesUnless (P ∨ Q) := by
  by_cases hP : P
  · exact ⟨fun _ => result_bind_of_error (hfirst.unprintable hP), fun h => absurd (.inl hP) h⟩
  · refine DecidesUnless.congr ?_ (or_iff_right hP).symm
    rcases hfirst.decides hP with ⟨value, hvalue⟩ | ⟨fault, hfault, hcode⟩
    · have hsecond := hnext value hvalue
      constructor
      · intro h
        rw [result_bind_of_ok hvalue]
        exact hsecond.unprintable h
      · intro h
        unfold Decides
        rw [result_bind_of_ok hvalue]
        exact hsecond.decides h
    · refine ⟨fun h => ?_, fun _ => .inr ⟨fault, result_bind_of_error hfault, hcode⟩⟩
      obtain ⟨value, hvalue⟩ := hQ h
      rw [hfault] at hvalue
      cases hvalue

/-- A first computation that always has a result unless a value could not be shown. -/
theorem ReadsUnless.bind_decidesUnless (hfirst : first.ReadsUnless P)
    (hnext : ∀ value, first.result = .ok value → (next value).DecidesUnless Q) :
    (first >>= next).DecidesUnless (P ∨ Q) := by
  by_cases hP : P
  · exact ⟨fun _ => result_bind_of_error (hfirst.unprintable hP), fun h => absurd (.inl hP) h⟩
  · exact hfirst.decidesUnless.bind hnext fun _ => hfirst.reads hP

end Outcome

open Outcome

/-! ## Readings -/

theorem Value.Textless.shown_eq {value : Value} (h : value.Textless) :
    Outcome.shown value = fail .unprintable := by
  rw [Outcome.shown, (Value.shown?_eq_none_iff value).mpr h]

theorem Value.exists_shown_eq {value : Value} (h : ¬value.Textless) :
    ∃ text, Outcome.shown value = pure text := by
  cases htext : value.shown? with
  | none => exact absurd ((Value.shown?_eq_none_iff value).mp htext) h
  | some text => exact ⟨text, by rw [Outcome.shown, htext]⟩

/-- A value has to be shown in front of any warning or fault that shows it. -/
theorem readsUnless_shown (value : Value) : (Outcome.shown value).ReadsUnless value.Textless := by
  refine ⟨fun h => ?_, fun h => ?_⟩
  · rw [h.shown_eq]
    rfl
  · obtain ⟨text, htext⟩ := Value.exists_shown_eq h
    rw [htext]
    exact ⟨text, rfl⟩

/-- Reading a number fails only where its value is textless. -/
theorem readsUnless_readNumber (label : String) (value : Value) (default : Double) :
    (readNumber label value default).ReadsUnless value.Textless := by
  unfold readNumber
  split
  · cases hnumber : value.number? with
    | some x =>
      refine (readsUnless_pure x).congr (iff_of_false id fun h => ?_)
      rw [h.number?_eq_none] at hnumber
      cases hnumber
    | none =>
      have hdefault (shown : String) : (Outcome.warn (.unreadableNumber label shown default) >>=
          fun _ => pure default).ReadsUnless False := ⟨False.elim, fun _ => ⟨default, rfl⟩⟩
      exact ((readsUnless_shown value).bind fun shown _ => hdefault shown).congr (or_iff_left id)
  · rename_i hmissing
    exact (readsUnless_pure default).congr (iff_of_false id fun h => hmissing h.isPresent)

/-- Reading numbers one after another fails only where one of their values is textless. -/
theorem readsUnless_readAll (readings : List Reading) :
    (Reading.readAll readings).ReadsUnless
      (∃ value ∈ readings.map Reading.value, value.Textless) := by
  induction readings with
  | nil => exact (readsUnless_pure []).congr (iff_of_false id nofun)
  | cons reading readings ih =>
    have hcons (x : Double) : (Reading.readAll readings >>= fun xs => pure (x :: xs)).ReadsUnless
        (∃ value ∈ readings.map Reading.value, value.Textless) :=
      (ih.bind fun xs _ => readsUnless_pure (x :: xs)).congr (or_iff_left id)
    rw [Reading.readAll_cons, List.map_cons, List.exists_mem_cons_iff]
    exact (readsUnless_readNumber _ _ _).bind fun x _ => hcons x

/-! ## What decoding asks for -/

namespace Settings
variable (settings : Settings)

/-- The values of the parameters of the mode that is named, if it can be told. -/
def parametersAsked : List Value :=
  settings.readMode.result.toOption.elim [] fun mode =>
    mode.parameters.map fun parameter => settings.parameters.field parameter.key

/-- The values of the sizes of the kind of bed that is named, if it can be told. -/
def sizesAsked : List Value :=
  settings.readBedKind.result.toOption.elim [] fun kind => kind.extents.map settings.extent

/-- Everything that is looked at among settings but the bed shape, which is never shown. -/
def asked : List Value :=
  settings.mode :: settings.parametersAsked ++ settings.printer :: settings.sizesAsked

end Settings

namespace SpelledProfile

/-- Everything that is looked at in a profile that is spelled out but the bed shape. -/
def asked (spelled : SpelledProfile) : List Value :=
  (spelled.mode.parameters.map fun parameter => spelled.technique.field parameter.name) ++
    spelled.bedKind.extents.map fun extent => spelled.bed.field extent.name

end SpelledProfile

namespace Profile

/-- Everything that is looked at in a profile that is no text. -/
def askedOfStructure (value : Value) : List Value :=
  ((SpelledProfile.ofValue? value).map SpelledProfile.asked).getD
    (((Settings.ofStructure? value).map Settings.asked).getD [])

/-- **What decoding asks for**: every part of a profile that decoding may have to show. -/
def asked : Value → List Value
  | .text text => (Json.ofEitherText? text).elim [] fun json => askedOfStructure (.ofJson json)
  | value => askedOfStructure value

end Profile

theorem Mode.map_value_readings (mode : Mode) (label : Parameter → String)
    (value : Parameter → Value) :
    (mode.readings label value).map Reading.value = mode.parameters.map value := by
  rw [readings, parameters, List.map_map, List.map_map]
  rfl

theorem BedKind.map_value_readings (kind : BedKind) (label : Extent → String)
    (value : Extent → Value) :
    (kind.readings label value).map Reading.value = kind.extents.map value := by
  rw [readings, List.map_map]
  rfl

/-! ## Decoding -/

/-- An empty text holds no value in any spelling. -/
theorem Json.ofEitherText?_empty : ofEitherText? "" = none := by
  have hread (lexer : Lexer) : read? lexer "" = none := by
    have hchars : "".toList = [] := rfl
    rw [read?, hchars, Lexer.tokens_nil]
    rfl
  rw [ofEitherText?, ofText?, ofLooseText?, hread, hread]
  rfl

namespace Settings
variable (settings : Settings)

theorem readsUnless_readMode : settings.readMode.ReadsUnless settings.mode.Textless := by
  have hunknown : (Outcome.shown settings.mode >>= fun shown =>
      Outcome.warn (.unknownMode shown) >>= fun _ => pure Mode.motion).ReadsUnless
        settings.mode.Textless := by
    have hmotion (shown : String) : (Outcome.warn (.unknownMode shown) >>= fun _ =>
        pure Mode.motion).ReadsUnless False := ⟨False.elim, fun _ => ⟨.motion, rfl⟩⟩
    exact ((readsUnless_shown settings.mode).bind fun shown _ => hmotion shown).congr
      (or_iff_left id)
  unfold readMode
  dsimp only
  split
  · rename_i hmode
    exact (readsUnless_pure _).congr (iff_of_false id (by rw [hmode]; exact nofun))
  · rename_i hmode
    exact (readsUnless_pure _).congr (iff_of_false id (by rw [hmode]; exact nofun))
  · rename_i name hmode
    split
    · exact (readsUnless_pure _).congr (iff_of_false id (by rw [hmode]; exact nofun))
    · exact hunknown
  · exact hunknown

/-- The kind of bed can be told or not, unless the printer has no text. -/
theorem decidesUnless_readBedKind :
    settings.readBedKind.DecidesUnless settings.printer.Textless := by
  have hunknown : (Outcome.shown settings.printer >>= fun shown =>
      (Outcome.fail (.unknownPrinter shown settings.printer) : Outcome BedKind)).DecidesUnless
        settings.printer.Textless := by
    have hfault (shown : String) :
        (Outcome.fail (.unknownPrinter shown settings.printer) : Outcome BedKind).DecidesUnless
          False := ⟨False.elim, fun _ => .inr ⟨_, rfl, rfl⟩⟩
    have hshown := (readsUnless_shown settings.printer).bind_decidesUnless
      fun shown _ => hfault shown
    exact hshown.congr (or_iff_left id)
  unfold readBedKind
  dsimp only
  split
  · split
    · rename_i name hprinter
      split
      · exact (readsUnless_pure _).decidesUnless.congr
          (iff_of_false id (by rw [hprinter]; exact nofun))
      · exact hunknown
    · exact hunknown
  · rename_i hmissing
    have hshown : ¬settings.printer.Textless := fun h => hmissing h.isPresent
    split
    · exact ⟨fun h => absurd h hshown, fun _ => .inr ⟨_, rfl, rfl⟩⟩
    · exact (readsUnless_pure _).decidesUnless.congr (iff_of_false id hshown)

/-- Settings are decoded unless something in them that is asked for is textless. -/
theorem decidesUnless_toProfile :
    settings.toProfile.DecidesUnless (∃ part ∈ settings.asked, part.Textless) := by
  have hparameters (mode : Mode) (hmode : settings.readMode.result = .ok mode) :
      (settings.parameterReadings mode).map Reading.value = settings.parametersAsked := by
    rw [parameterReadings, Mode.map_value_readings, parametersAsked, hmode]
    rfl
  have hsizes (kind : BedKind) (hkind : settings.readBedKind.result = .ok kind) :
      (settings.sizeReadings kind).map Reading.value = settings.sizesAsked := by
    rw [sizeReadings, BedKind.map_value_readings, sizesAsked, hkind]
    rfl
  -- where the kind of bed cannot be told, no size is asked for
  have hkind (h : ∃ part ∈ settings.sizesAsked, part.Textless) :
      ∃ kind, settings.readBedKind.result = .ok kind := by
    obtain ⟨part, hmem, -⟩ := h
    cases hresult : settings.readBedKind.result with
    | ok kind => exact ⟨kind, rfl⟩
    | error fault =>
      rw [sizesAsked, hresult] at hmem
      cases hmem
  have hbed (mode : Mode) (parameters : List Double) :
      (settings.readBedKind >>= fun kind =>
        Reading.readAll (settings.sizeReadings kind) >>= fun sizes =>
          pure (Profile.ofNumbers mode kind settings.bedShape parameters sizes)).DecidesUnless
        (settings.printer.Textless ∨ ∃ part ∈ settings.sizesAsked, part.Textless) := by
    refine settings.decidesUnless_readBedKind.bind (fun kind h => ?_) hkind
    have hread := readsUnless_readAll (settings.sizeReadings kind)
    rw [hsizes kind h] at hread
    exact ((hread.bind fun sizes _ => readsUnless_pure _).congr (or_iff_left id)).decidesUnless
  have hasked : (∃ part ∈ settings.asked, part.Textless) ↔
      settings.mode.Textless ∨ (∃ part ∈ settings.parametersAsked, part.Textless) ∨
        settings.printer.Textless ∨ ∃ part ∈ settings.sizesAsked, part.Textless := by
    simp only [asked, List.cons_append, List.mem_cons, List.mem_append, or_and_right, exists_or,
      exists_eq_left]
  rw [hasked, toProfile_eq]
  refine settings.readsUnless_readMode.bind_decidesUnless fun mode h => ?_
  have hread := readsUnless_readAll (settings.parameterReadings mode)
  rw [hparameters mode h] at hread
  exact hread.bind_decidesUnless fun parameters _ => hbed mode parameters

end Settings

/-- A profile that is spelled out is decoded unless something that is asked for is textless. -/
theorem SpelledProfile.decidesUnless_toProfile (spelled : SpelledProfile) :
    spelled.toProfile.DecidesUnless (∃ part ∈ spelled.asked, part.Textless) := by
  have hparameters := readsUnless_readAll spelled.parameterReadings
  have hsizes := readsUnless_readAll spelled.sizeReadings
  rw [parameterReadings, Mode.map_value_readings] at hparameters
  rw [sizeReadings, BedKind.map_value_readings] at hsizes
  rw [toProfile_eq, asked]
  simp only [List.mem_append, or_and_right, exists_or]
  refine (hparameters.bind fun parameters _ => ?_).decidesUnless
  exact (hsizes.bind fun sizes _ => readsUnless_pure _).congr (or_iff_left id)

namespace Profile

/-- What neither is spelled out nor holds settings is never shown. -/
theorem decides_ofNothing (value : Value) : (ofNothing value).Decides := by
  unfold ofNothing
  split
  · exact .inl ⟨defaults, rfl⟩
  · exact .inl ⟨defaults, rfl⟩

theorem decidesUnless_ofStructure (value : Value) :
    (ofStructure value).DecidesUnless (∃ part ∈ askedOfStructure value, part.Textless) := by
  rw [ofStructure_eq, askedOfStructure]
  cases SpelledProfile.ofValue? value with
  | some spelled => exact spelled.decidesUnless_toProfile
  | none =>
    cases Settings.ofStructure? value with
    | some settings => exact settings.decidesUnless_toProfile
    | none => exact ⟨nofun, fun _ => decides_ofNothing value⟩

theorem decidesUnless_ofText (text : String) :
    (ofText text).DecidesUnless (∃ part ∈ asked (.text text), part.Textless) := by
  have hundecodable : (Outcome.warn .undecodableText >>= fun _ => pure defaults).Decides :=
    .inl ⟨defaults, rfl⟩
  unfold ofText
  rw [asked]
  cases Json.ofEitherText? text with
  | none => exact ⟨nofun, fun _ => hundecodable⟩
  | some json =>
    cases json with
    | list items => exact decidesUnless_ofStructure _
    | record fields => exact decidesUnless_ofStructure _
    | _ => exact ⟨nofun, fun _ => hundecodable⟩

theorem decidesUnless_ofValue (value : Value) :
    (ofValue value).DecidesUnless (∃ part ∈ asked value, part.Textless) := by
  cases value with
  | text text =>
    unfold ofValue
    dsimp only
    split
    · rename_i hempty
      rw [String.isEmpty_iff.mp hempty, asked, Json.ofEitherText?_empty]
      exact ⟨nofun, fun _ => decides_pure _⟩
    · exact decidesUnless_ofText text
  | _ => exact decidesUnless_ofStructure _

/-- **How decoding can fail.**  There is a profile, or the kind of bed cannot be told, exactly where
nothing that decoding asks for is textless; where something is, decoding fails because it cannot
show it. -/
theorem ofValue_decides_iff (value : Value) :
    ((ofValue value).Decides ↔ ∀ part ∈ asked value, ¬part.Textless) ∧
      ((∃ part ∈ asked value, part.Textless) ↔ (ofValue value).result = .error .unprintable) := by
  have h := decidesUnless_ofValue value
  have hnever (hresult : (ofValue value).result = .error .unprintable) :
      ¬(ofValue value).Decides := by
    rintro (⟨profile, hprofile⟩ | ⟨fault, hfault, hcode⟩)
    · rw [hresult] at hprofile
      cases hprofile
    · rw [hresult] at hfault
      cases hfault
      cases hcode
  constructor
  · constructor
    · intro hdecides part hmem htextless
      exact hnever (h.unprintable ⟨part, hmem, htextless⟩) hdecides
    · intro hshown
      exact h.decides fun ⟨part, hmem, htextless⟩ => hshown part hmem htextless
  · refine ⟨h.unprintable, fun hresult => ?_⟩
    by_contra hshown
    exact hnever hresult (h.decides hshown)

/-- A mode that has no text stops decoding in another way. -/
theorem not_decides_of_textless_mode :
    ¬(ofValue (.record [("Mode", .record [("toString", .text "own")])])).Decides := by
  rintro (⟨profile, hprofile⟩ | ⟨fault, hfault, hcode⟩)
  · cases hprofile
  · cases hfault
    cases hcode

end Profile
end Toolpath
