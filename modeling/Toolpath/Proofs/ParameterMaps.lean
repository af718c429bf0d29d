import Toolpath.Proofs.DecodingFaults

/-! # Maps of parameters

The parameters of a technique are read from a map one by one, each under its own key and on its own.
What a value denotes is said by `Value.Denotes`; a value that is given and denotes nothing is
unreadable, takes the default and is warned about (`Reading.readAll_eq`).  So a map gives every
parameter what its key holds (`Technique.value?_of_ofParameters`), and binding one key changes at
most the one parameter it belongs to (`Technique.ofParameters_put`).
-/
namespace Toolpath

/-! ## What values denote -/

namespace Value

/-- The number that a value stands for.  A finite number stands for itself, and a text that is more
than blanks for the number it is a numeral of, if that is finite. -/
inductive Denotes : Value → Double → Prop
  | number {x : Double} (hfinite : x.isFinite = true) : Denotes (.number x) x
  | text {s : String} {x : Double} (hblank : trim s.toList ≠ []) (hread : Double.ofText? s = some x)
    (hfinite : x.isFinite = true) : Denotes (.text s) x

/-- A value that is given but stands for no number. -/
def IsUnreadable (value : Value) : Prop := value.isPresent = true ∧ ∀ x, ¬value.Denotes x

/-- Blanks are no numeral. -/
theorem trim_ne_nil_of_ofText? {s : String} {x : Double} (h : Double.ofText? s = some x) :
    trim s.toList ≠ [] := by
  intro hblank
  rw [Double.ofText?, hblank] at h
  cases h

/-- **Reading a value** finds what it denotes. -/
theorem number?_eq_some_iff {value : Value} {x : Double} :
    value.number? = some x ↔ value.Denotes x := by
  constructor
  · intro h
    obtain ⟨hread, hfinite⟩ := Option.filter_eq_some_iff.mp h
    cases value with
    | number y =>
      cases hread
      exact .number hfinite
    | text s => exact .text (trim_ne_nil_of_ofText? hread) hread hfinite
    | _ => cases hread
  · intro h
    cases h with
    | number hfinite => exact Option.filter_eq_some_iff.mpr ⟨rfl, hfinite⟩
    | text _ hread hfinite => exact Option.filter_eq_some_iff.mpr ⟨hread, hfinite⟩

theorem number?_eq_none_iff {value : Value} : value.number? = none ↔ ∀ x, ¬value.Denotes x := by
  simp only [Option.eq_none_iff_forall_ne_some, ne_eq, number?_eq_some_iff]

theorem isUnreadable_iff {value : Value} :
    value.IsUnreadable ↔ value.isPresent = true ∧ value.number? = none := by
  rw [IsUnreadable, number?_eq_none_iff]

instance : DecidablePred IsUnreadable := fun _ => decidable_of_iff' _ isUnreadable_iff

/-- What is not given denotes nothing. -/
theorem number?_eq_none_of_not_isPresent {value : Value} (h : value.isPresent = false) :
    value.number? = none := by
  rcases isPresent_eq_false_iff.mp h with rfl | rfl <;> rfl

end Value

/-! ## Binding keys -/

theorem Json.lookup_put {α : Type} (fields : List (String × α)) (key name : String) (value : α) :
    (put fields key value).lookup name = if name = key then some value else fields.lookup name := by
  have hcons (bound : String) (held : α) (rest : List (String × α)) :
      ((bound, held) :: rest).lookup name =
        if name = bound then some held else rest.lookup name := by
    rw [List.lookup_cons]
    by_cases h : name = bound
    · rw [if_pos h, beq_iff_eq.mpr h]
    · rw [if_neg h, beq_eq_false_iff_ne.mpr h]
  induction fields with
  | nil => rw [put, hcons]
  | cons field rest ih =>
    rw [put]
    split
    · rename_i hbound
      rw [hcons, hcons, hbound]
      split <;> rfl
    · rename_i hbound
      rw [hcons, hcons, ih]
      by_cases hname : name = field.1
      · rw [if_pos hname, if_pos hname, if_neg (fun h => hbound (hname.symm.trans h))]
      · rw [if_neg hname, if_neg hname]

namespace Value
variable {fields : List (String × Value)}

/-- **A key that is bound** holds its value, and every other key what it held before. -/
theorem field_put (fields : List (String × Value)) (key name : String) (value : Value) :
    (record (Json.put fields key value)).field name =
      if name = key then value else (record fields).field name := by
  rw [field, Json.lookup_put, field]
  split <;> rfl

/-- What stands under a key can be shown where everything in the map can. -/
theorem not_textless_field (h : ∀ entry ∈ fields, ¬entry.2.Textless) (name : String) :
    ¬((record fields).field name).Textless := by
  rw [field]
  cases hlookup : fields.lookup name with
  | none => exact nofun
  | some found =>
    obtain ⟨before, behind, rfl, -⟩ := List.lookup_eq_some_iff.mp hlookup
    exact h (name, found) (List.mem_append_right _ List.mem_cons_self)

end Value

/-! ## Reading one after another -/

namespace Reading

/-- The number that is read: what the value denotes, or else the default. -/
def number (reading : Reading) : Double := reading.value.number?.getD reading.default

/-- A warning that gives the label, the text of the value and the default. -/
def WarnsOf (reading : Reading) (warning : Warning) : Prop :=
  ∃ shown, reading.value.shown? = some shown ∧
    warning = .unreadableNumber reading.label shown reading.default

/-- **One value** is read as the number it denotes or as the default, with a warning where it is
unreadable. -/
theorem read_eq {reading : Reading} (h : ¬reading.value.Textless) :
    ∃ warnings, reading.read = { warnings, result := .ok reading.number } ∧
      List.Forall₂ WarnsOf ([reading].filter (·.value.IsUnreadable)) warnings := by
  obtain ⟨label, value, default⟩ := reading
  by_cases hpresent : value.isPresent = true
  · cases hnumber : value.number? with
    | some x =>
      have hreadable : ¬value.IsUnreadable := by
        rw [Value.isUnreadable_iff, hnumber]
        exact fun hunreadable => nomatch hunreadable.2
      refine ⟨[], ?_, ?_⟩
      · rw [read, readNumber, if_pos hpresent, number, hnumber]
        rfl
      · rw [List.filter_cons_of_neg (by simpa using hreadable)]
        exact .nil
    | none =>
      have hunreadable : value.IsUnreadable := Value.isUnreadable_iff.mpr ⟨hpresent, hnumber⟩
      cases hshown : value.shown? with
      | none => exact absurd ((Value.shown?_eq_none_iff value).mp hshown) h
      | some shown =>
        refine ⟨[.unreadableNumber label shown default], ?_, ?_⟩
        · rw [read, readNumber, if_pos hpresent, number, hnumber, Outcome.shown, hshown]
          rfl
        · rw [List.filter_cons_of_pos (by simpa using hunreadable)]
          exact .cons ⟨shown, hshown, rfl⟩ .nil
  · have hmissing := Bool.eq_false_iff.mpr hpresent
    refine ⟨[], ?_, ?_⟩
    · rw [read, readNumber_of_not_isPresent label default hmissing, number,
        Value.number?_eq_none_of_not_isPresent hmissing]
      rfl
    · rw [List.filter_cons_of_neg (by simpa using fun hunreadable => hpresent hunreadable.1)]
      exact .nil

/-- **Values that are read one after another** do not depend on each other: each has its own number,
and there is one warning for each of them that is unreadable, in order. -/
theorem readAll_eq {readings : List Reading} (h : ∀ reading ∈ readings, ¬reading.value.Textless) :
    ∃ warnings, readAll readings = { warnings, result := .ok (readings.map number) } ∧
      List.Forall₂ WarnsOf (readings.filter (·.value.IsUnreadable)) warnings := by
  induction readings with
  | nil => exact ⟨[], rfl, .nil⟩
  | cons reading readings ih =>
    rw [List.forall_mem_cons] at h
    obtain ⟨first, hfirst, hwarnsFirst⟩ := read_eq h.1
    obtain ⟨rest, hrest, hwarnsRest⟩ := ih h.2
    refine ⟨first ++ rest, ?_, ?_⟩
    · rw [readAll_cons, hfirst, hrest]
      refine Outcome.ext ?_ rfl
      exact congrArg (first ++ ·) (List.append_nil rest)
    · rw [← List.singleton_append, List.filter_append]
      exact List.rel_append hwarnsFirst hwarnsRest

end Reading

/-! ## Techniques -/

/-- No two parameters share a key. -/
theorem Parameter.key_injective : Function.Injective key := by
  intro a b
  cases a <;> cases b <;> decide

/-- What is read from a map for a mode, in the order of the mode. -/
def Mode.readingsIn (mode : Mode) (parameters : Value) : List Reading :=
  mode.readings (fun parameter => "param " ++ parameter.key) fun parameter =>
    parameters.field parameter.key

namespace Technique

/-- The value of a parameter, where the technique has it. -/
def value? (technique : Technique) (parameter : Parameter) : Option Double :=
  technique.parameters.lookup parameter

theorem ofParameters_eq (mode : Mode) (parameters : Value) :
    ofParameters mode parameters =
      Reading.readAll (mode.readingsIn parameters) >>= fun numbers =>
        pure (ofNumbers mode numbers) :=
  build_eq mode _ _

theorem mode_ofNumbers (mode : Mode) (numbers : List Double) :
    (ofNumbers mode numbers).mode = mode := by
  unfold ofNumbers
  split
  · rfl
  · rfl
  · rfl
  · cases mode <;> rfl

/-- The technique of a mode that has one number for each of its parameters. -/
theorem parameters_ofNumbers (mode : Mode) (number : Parameter × Double → Double) :
    (ofNumbers mode ((defaults mode).parameters.map number)).parameters =
      (defaults mode).parameters.map fun entry => (entry.1, number entry) := by
  cases mode <;> rfl

theorem lookup_map_snd (entries : List (Parameter × Double)) (number : Parameter → Double → Double)
    (parameter : Parameter) :
    (entries.map fun entry => (entry.1, number entry.1 entry.2)).lookup parameter =
      (entries.lookup parameter).map (number parameter) := by
  induction entries with
  | nil => rfl
  | cons entry entries ih =>
    rw [List.map_cons, List.lookup_cons, List.lookup_cons]
    by_cases h : parameter = entry.1
    · rw [beq_iff_eq.mpr h, h]
      rfl
    · rw [beq_eq_false_iff_ne.mpr h]
      exact ih

/-- A mode has a default for each of its parameters. -/
theorem exists_value?_defaults {mode : Mode} {parameter : Parameter}
    (h : parameter ∈ mode.parameters) :
    ∃ default, (defaults mode).value? parameter = some default := by
  obtain ⟨entry, hentry, rfl⟩ := List.mem_map.mp h
  exact Option.isSome_iff_exists.mp (List.lookup_isSome_iff.mpr ⟨entry, hentry, beq_self_eq_true _⟩)

section Map
variable {mode : Mode} {fields : List (String × Value)}

/-- **A map gives every parameter what its key holds**, and the default of the mode where that
denotes no number. -/
theorem ofParameters_reads (mode : Mode) (h : ∀ entry ∈ fields, ¬entry.2.Textless) :
    ∃ (technique : Technique) (warnings : List Warning),
      ofParameters mode (.record fields) = { warnings, result := .ok technique } ∧
      technique.mode = mode ∧
      (∀ parameter, technique.value? parameter = ((defaults mode).value? parameter).map
        fun default => ((Value.record fields).field parameter.key).number?.getD default) ∧
      List.Forall₂ Reading.WarnsOf
        ((mode.readingsIn (.record fields)).filter (·.value.IsUnreadable)) warnings := by
  have hreadings : ∀ reading ∈ mode.readingsIn (.record fields), ¬reading.value.Textless := by
    intro reading hreading
    obtain ⟨entry, -, rfl⟩ := List.mem_map.mp hreading
    exact Value.not_textless_field h entry.1.key
  obtain ⟨warnings, hread, hwarns⟩ := Reading.readAll_eq hreadings
  refine ⟨ofNumbers mode ((mode.readingsIn (.record fields)).map Reading.number), warnings, ?_,
    mode_ofNumbers mode _, fun parameter => ?_, hwarns⟩
  · rw [ofParameters_eq, hread]
    exact Outcome.ext (List.append_nil warnings) rfl
  · rw [Mode.readingsIn, Mode.readings, List.map_map, value?, parameters_ofNumbers]
    exact lookup_map_snd (defaults mode).parameters (fun parameter default =>
      ((Value.record fields).field parameter.key).number?.getD default) parameter

/-- A key that belongs to no parameter of the mode is not looked at. -/
theorem ofParameters_put_of_ne {key : String} (h : ∀ parameter ∈ mode.parameters,
    parameter.key ≠ key) (value : Value) :
    ofParameters mode (.record (Json.put fields key value)) =
      ofParameters mode (.record fields) := by
  have hreadings : mode.readingsIn (.record (Json.put fields key value)) =
      mode.readingsIn (.record fields) := by
    refine List.map_congr_left fun entry hentry => ?_
    have hkey : entry.1.key ≠ key := h entry.1 (List.mem_map_of_mem hentry)
    have hfield := Value.field_put fields key entry.1.key value
    rw [if_neg hkey] at hfield
    exact congrArg (fun held => Reading.mk ("param " ++ entry.1.key) held entry.2) hfield
  rw [ofParameters_eq, ofParameters_eq, hreadings]

theorem forall_put (key : String) {value : Value} (h : ∀ entry ∈ fields, ¬entry.2.Textless)
    (hvalue : ¬value.Textless) : ∀ entry ∈ Json.put fields key value, ¬entry.2.Textless := by
  induction fields with
  | nil => exact List.forall_mem_singleton.mpr hvalue
  | cons field rest ih =>
    rw [List.forall_mem_cons] at h
    rw [Json.put]
    split
    · exact List.forall_mem_cons.mpr ⟨hvalue, h.2⟩
    · exact List.forall_mem_cons.mpr ⟨h.1, ih h.2⟩

/-- A value without a text stops the reading under a key of the mode. -/
theorem result_ofParameters_put_of_textless {parameter : Parameter}
    (hparameter : parameter ∈ mode.parameters) {value : Value} (hvalue : value.Textless) :
    (ofParameters mode (.record (Json.put fields parameter.key value))).result =
      .error .unprintable := by
  have hasked : ∃ asked ∈ (mode.readingsIn
      (.record (Json.put fields parameter.key value))).map Reading.value, asked.Textless := by
    refine ⟨value, ?_, hvalue⟩
    rw [Mode.readingsIn, Mode.map_value_readings]
    refine List.mem_map.mpr ⟨parameter, hparameter, ?_⟩
    rw [Value.field_put, if_pos rfl]
  rw [ofParameters_eq]
  exact Outcome.result_bind_of_error ((readsUnless_readAll _).unprintable hasked)

/-- **Parameters are read independently.**  A map in which everything has a text gives a technique,
with one warning for each parameter of the mode whose value is unreadable, in the order of the mode,
which gives the key and the default.  When a key is bound to a value, nothing changes unless the key
belongs to a parameter of the mode.  That parameter becomes the number the value denotes, or its
default; the others stay as they are.  A value without a text is the only one that is refused. -/
theorem ofParameters_put (mode : Mode) (hfields : ∀ entry ∈ fields, ¬entry.2.Textless) :
    ∃ (technique : Technique) (warnings : List Warning),
      ofParameters mode (.record fields) = { warnings, result := .ok technique } ∧
      technique.mode = mode ∧
      List.Forall₂ Reading.WarnsOf
        ((mode.readingsIn (.record fields)).filter (·.value.IsUnreadable)) warnings ∧
      ∀ (key : String) (value : Value),
        ((∀ parameter ∈ mode.parameters, parameter.key ≠ key) →
          ofParameters mode (.record (Json.put fields key value)) =
            { warnings, result := .ok technique }) ∧
        ∀ parameter ∈ mode.parameters, parameter.key = key →
          (¬value.Textless → ∃ changed : Technique,
            (ofParameters mode (.record (Json.put fields key value))).result = .ok changed ∧
            changed.mode = mode ∧
            (∀ other, other ≠ parameter → changed.value? other = technique.value? other) ∧
            (∀ x, value.Denotes x → changed.value? parameter = some x) ∧
            ((∀ x, ¬value.Denotes x) →
              changed.value? parameter = (defaults mode).value? parameter)) ∧
          (value.Textless →
            (ofParameters mode (.record (Json.put fields key value))).result =
              .error .unprintable) := by
  obtain ⟨technique, warnings, hread, hmode, hvalues, hwarns⟩ := ofParameters_reads mode hfields
  refine ⟨technique, warnings, hread, hmode, hwarns, fun key value => ⟨fun hkey => ?_, ?_⟩⟩
  · rw [ofParameters_put_of_ne hkey, hread]
  rintro parameter hparameter rfl
  refine ⟨fun hvalue => ?_, result_ofParameters_put_of_textless hparameter⟩
  obtain ⟨changed, warned, hchanged, hmode', hvalues', -⟩ :=
    ofParameters_reads mode (forall_put parameter.key hfields hvalue)
  obtain ⟨default, hdefault⟩ := exists_value?_defaults hparameter
  have hat : changed.value? parameter = some (value.number?.getD default) := by
    rw [hvalues', hdefault, Option.map_some, Value.field_put, if_pos rfl]
  refine ⟨changed, by rw [hchanged], hmode', fun other hother => ?_, fun x hx => ?_,
    fun hnone => ?_⟩
  · have hkey : other.key ≠ parameter.key := fun h => hother (Parameter.key_injective h)
    rw [hvalues', hvalues]
    simp only [Value.field_put, if_neg hkey]
  · rw [hat, Value.number?_eq_some_iff.mpr hx, Option.getD_some]
  · rw [hat, Value.number?_eq_none_iff.mpr hnone, Option.getD_none, hdefault]

end Map

/-- A map with a word, a numeral in base sixteen, a null and a key of no mode. -/
def mixedMap : List (String × Value) :=
  [("NozzleTemp", .text "hot"), ("FeedRate", .text " 0x10 "), ("BedTemp", .null),
    ("Colour", .list [.text "red"])]

/-- In the map only the word is warned about, and a bed temperature that is bound in it changes
nothing else. -/
theorem ofParameters_put_mixedMap :
    (∀ entry ∈ mixedMap, ¬entry.2.Textless) ∧ Parameter.bedTemp ∈ Mode.thermoplastic.parameters ∧
      (Value.text " 6e1 ").Denotes 60 ∧
      ∃ technique changed : Technique,
        ofParameters .thermoplastic (.record mixedMap) =
          { warnings := [.unreadableNumber "param NozzleTemp" "hot" 210]
            result := .ok technique } ∧
        (ofParameters .thermoplastic
          (.record (Json.put mixedMap "BedTemp" (.text " 6e1 ")))).result = .ok changed ∧
        (∀ other, other ≠ .bedTemp → changed.value? other = technique.value? other) ∧
        changed.value? .bedTemp = some 60 := by
  have hfields : ∀ entry ∈ mixedMap, ¬entry.2.Textless := by
    have hshown : (mixedMap.all fun entry => entry.2.shown?.isSome) = true := by decide +kernel
    intro entry hentry htextless
    have hentryShown := List.all_eq_true.mp hshown entry hentry
    rw [(Value.shown?_eq_none_iff entry.2).mpr htextless] at hentryShown
    exact Bool.false_ne_true hentryShown
  have hparameter : Parameter.bedTemp ∈ Mode.thermoplastic.parameters := by decide +kernel
  have hdenotes : (Value.text " 6e1 ").Denotes 60 :=
    Value.number?_eq_some_iff.mp (by decide +kernel)
  have hwarned : (ofParameters .thermoplastic (.record mixedMap)).warnings =
      [.unreadableNumber "param NozzleTemp" "hot" 210] := by
    decide +kernel
  obtain ⟨technique, warnings, hread, -, -, hput⟩ := ofParameters_put .thermoplastic hfields
  have hvalue : ¬(Value.text " 6e1 ").Textless := by rintro ⟨⟩
  obtain ⟨changed, hchanged, -, hframe, hat, -⟩ :=
    ((hput "BedTemp" (.text " 6e1 ")).2 .bedTemp hparameter rfl).1 hvalue
  rw [hread] at hwarned
  subst hwarned
  exact ⟨hfields, hparameter, hdenotes, technique, changed, hread, hchanged, hframe, hat _ hdenotes⟩

end Technique
end Toolpath
