import Toolpath.Proofs.Readings

/-! # Three ways of writing a profile

A mode, a kind of bed and the values of their numbers (`Choices`) can be written as a profile that
is spelled out, as a record of settings and as a list of settings (`Choices.Written`).  Whichever
form is taken, and whether a value that is missing is left out, written as nothing or written as
null, decoding comes to the same: the same profile or the same fault, and the same warnings but for
the labels, which are those of the form (`Choices.ofValue_written`).
-/
namespace Toolpath

/-- What a profile is to be made from. -/
structure Choices where
  mode : Mode
  bedKind : BedKind
  parameter : Parameter → Value
  extent : Extent → Value
  bedShape : Value

/-- The three forms of a profile that is no text. -/
inductive Form
  | spelled
  | keyed
  | listed
  deriving DecidableEq, Repr

/-- The numbers of a profile. -/
inductive Quantity
  | parameter (parameter : Parameter)
  | extent (extent : Extent)
  deriving DecidableEq, Repr

/-- What a number is called in the warnings about a form. -/
def Form.label : Form → Quantity → String
  | spelled, .parameter parameter => "process." ++ parameter.name
  | spelled, .extent extent => "bed." ++ extent.name
  | keyed, .parameter parameter => "param " ++ parameter.key
  | keyed, .extent extent => extent.key
  | listed, .parameter parameter => "param " ++ parameter.key
  | listed, .extent extent => extent.key

/-- A number that could not be read, with the text of its value and what took its place. -/
structure Unread where
  quantity : Quantity
  shown : String
  default : Double

/-- The warning about a number that could not be read. -/
def Unread.warning (form : Form) (unread : Unread) : Warning :=
  .unreadableNumber (form.label unread.quantity) unread.shown unread.default

def BedKind.name : BedKind → String
  | rectangular => "bed.rectangular"
  | cylindrical => "bed.cylindrical"

theorem BedKind.ofName?_name (kind : BedKind) : ofName? kind.name = some kind := by
  cases kind <;> rfl

/-- The keyword of a printer with some kind of bed. -/
def BedKind.printer : BedKind → String
  | rectangular => "cartesian"
  | cylindrical => "delta"

theorem BedKind.ofKeyword?_printer (kind : BedKind) : ofKeyword? kind.printer = some kind := by
  cases kind <;> rfl

/-- The name of a mode is one of its keywords. -/
theorem Mode.ofKeyword?_name (mode : Mode) : ofKeyword? mode.name = some mode := by
  cases mode <;> rfl

/-! ## Naming a mode and a kind of bed -/

namespace Settings

/-- Settings name a mode by a keyword, and motion also by leaving the mode out. -/
def NamesMode (settings : Settings) (mode : Mode) : Prop :=
  (∃ name, settings.mode = .text name ∧ Mode.ofKeyword? name = some mode) ∨
    (settings.mode.isPresent = false ∧ mode = .motion)

/-- Settings name a kind of bed by the keyword of a printer, and a rectangular one also by leaving
the printer out, unless they give both a radius and an extent along X or Y. -/
def NamesBedKind (settings : Settings) (kind : BedKind) : Prop :=
  (∃ name, settings.printer = .text name ∧ BedKind.ofKeyword? name = some kind) ∨
    (settings.printer.isPresent = false ∧ kind = .rectangular ∧
      (settings.bedRadius.isPresent = false ∨
        (settings.bedX.isPresent = false ∧ settings.bedY.isPresent = false)))

theorem NamesMode.readMode_eq {settings : Settings} {mode : Mode} (h : settings.NamesMode mode) :
    settings.readMode = pure mode := by
  unfold readMode
  rcases h with ⟨name, hname, hmode⟩ | ⟨hmissing, rfl⟩
  · rw [hname]
    dsimp only
    rw [hmode]
  · rcases Value.isPresent_eq_false_iff.mp hmissing with hmode | hmode <;> rw [hmode]

theorem NamesBedKind.readBedKind_eq {settings : Settings} {kind : BedKind}
    (h : settings.NamesBedKind kind) : settings.readBedKind = pure kind := by
  unfold readBedKind
  rcases h with ⟨name, hname, hkind⟩ | ⟨hmissing, rfl, hsizes⟩
  · have hpresent : settings.printer.isPresent = true := by rw [hname]; rfl
    rw [if_pos hpresent, hname]
    dsimp only
    rw [hkind]
  · have hone : ¬(settings.bedRadius.isPresent &&
        (settings.bedX.isPresent || settings.bedY.isPresent)) = true := by
      rcases hsizes with hradius | ⟨hx, hy⟩
      · rw [hradius]
        exact Bool.false_ne_true
      · rw [hx, hy, Bool.or_false, Bool.and_false]
        exact Bool.false_ne_true
    rw [if_neg (by rw [hmissing]; exact Bool.false_ne_true), if_neg hone]

end Settings

namespace Choices
variable (choices : Choices)

/-! ## Writing choices down -/

/-- A value that spells some choices out.  It may hold more than that. -/
structure SpelledBy (value : Value) : Prop where
  mode : (value.field "process").field "mode" = .text choices.mode.name
  bedKind : (value.field "bed").field "kind" = .text choices.bedKind.name
  parameter : ∀ parameter ∈ choices.mode.parameters,
    ((value.field "process").field parameter.name).Same (choices.parameter parameter)
  extent : ∀ extent ∈ choices.bedKind.extents,
    ((value.field "bed").field extent.name).Same (choices.extent extent)
  bedShape : (value.field "bedShape").Same choices.bedShape

/-- Settings that hold some choices. -/
structure SetBy (settings : Settings) : Prop where
  mode : settings.NamesMode choices.mode
  bedKind : settings.NamesBedKind choices.bedKind
  parameter : ∀ parameter ∈ choices.mode.parameters,
    (settings.parameters.field parameter.key).Same (choices.parameter parameter)
  extent : ∀ extent ∈ choices.bedKind.extents,
    (settings.extent extent).Same (choices.extent extent)
  bedShape : settings.bedShape.Same choices.bedShape

/-- A value that some choices are written as in a form.  A record of settings has no field that
could spell a technique out. -/
inductive Written : Form → Value → Prop
  | spelled {value : Value} (h : choices.SpelledBy value) : Written .spelled value
  | keyed {fields : List (String × Value)} (hprocess : fields.lookup "process" = none)
    (h : choices.SetBy (.ofRecord (.record fields))) : Written .keyed (.record fields)
  | listed {items : List Value} (h : choices.SetBy (.ofList items)) : Written .listed (.list items)

/-- The parameters of some choices under their names in one form. -/
def parameterFields (name : Parameter → String) : List (String × Value) :=
  choices.mode.parameters.map fun parameter => (name parameter, choices.parameter parameter)

/-- Some choices in a form, with every value in its place. -/
def write : Form → Value
  | .spelled => .record [
      ("process", .record (("mode", .text choices.mode.name) ::
        choices.parameterFields Parameter.name)),
      ("bed", .record (("kind", .text choices.bedKind.name) ::
        choices.bedKind.extents.map fun extent => (extent.name, choices.extent extent))),
      ("bedShape", choices.bedShape)]
  | .keyed => .record [("Mode", .text choices.mode.name),
      ("PrinterType", .text choices.bedKind.printer),
      ("Params", .record (choices.parameterFields Parameter.key)),
      ("BedX", choices.extent .x), ("BedY", choices.extent .y), ("BedZ", choices.extent .z),
      ("BedRadius", choices.extent .radius), ("BedShape", choices.bedShape)]
  | .listed => .list [.text choices.mode.name, .text choices.bedKind.printer,
      .record (choices.parameterFields Parameter.key), choices.extent .x, choices.extent .y,
      choices.extent .z, choices.extent .radius, choices.bedShape]

/-- A parameter that is written down stands under its name, and under its key. -/
theorem field_parameterFields {parameter : Parameter} (h : parameter ∈ choices.mode.parameters) :
    (Value.record (("mode", .text choices.mode.name) ::
        choices.parameterFields Parameter.name)).field parameter.name =
      choices.parameter parameter ∧
    (Value.record (choices.parameterFields Parameter.key)).field parameter.key =
      choices.parameter parameter := by
  obtain ⟨mode, kind, values, extents, shape⟩ := choices
  cases mode with
  | thermoplastic =>
    simp only [Mode.parameters, Technique.defaults, Technique.parameters, List.map_cons,
      List.map_nil, List.mem_cons, List.not_mem_nil, or_false] at h
    rcases h with rfl | rfl | rfl | rfl | rfl <;> exact ⟨rfl, rfl⟩
  | paste =>
    simp only [Mode.parameters, Technique.defaults, Technique.parameters, List.map_cons,
      List.map_nil, List.mem_cons, List.not_mem_nil, or_false] at h
    rcases h with rfl | rfl | rfl | rfl | rfl | rfl <;> exact ⟨rfl, rfl⟩
  | motion =>
    simp only [Mode.parameters, Technique.defaults, Technique.parameters, List.map_cons,
      List.map_nil, List.mem_cons, List.not_mem_nil, or_false] at h
    rcases h with rfl | rfl | rfl | rfl | rfl <;> exact ⟨rfl, rfl⟩

/-- Settings in which everything stands in its place hold the choices. -/
theorem setBy_write {settings : Settings} (hmode : settings.mode = .text choices.mode.name)
    (hprinter : settings.printer = .text choices.bedKind.printer)
    (hparameters : settings.parameters = .record (choices.parameterFields Parameter.key))
    (hextent : ∀ extent, settings.extent extent = choices.extent extent)
    (hshape : settings.bedShape = choices.bedShape) : choices.SetBy settings where
  mode := .inl ⟨_, hmode, choices.mode.ofKeyword?_name⟩
  bedKind := .inl ⟨_, hprinter, choices.bedKind.ofKeyword?_printer⟩
  parameter parameter h := by
    rw [hparameters, (choices.field_parameterFields h).2]
    exact .rfl
  extent extent _ := by
    rw [hextent]
    exact .rfl
  bedShape := by
    rw [hshape]
    exact .rfl

/-- **Any choices can be written in any form.** -/
theorem written_write (form : Form) : choices.Written form (choices.write form) := by
  cases form with
  | spelled =>
    refine .spelled ⟨rfl, rfl, fun parameter h => ?_, fun extent h => ?_, .rfl⟩
    · exact .inl (choices.field_parameterFields h).1
    · obtain ⟨mode, kind, values, extents, shape⟩ := choices
      cases kind with
      | rectangular =>
        simp only [BedKind.extents, List.mem_cons, List.not_mem_nil, or_false] at h
        rcases h with rfl | rfl | rfl <;> exact .rfl
      | cylindrical =>
        simp only [BedKind.extents, List.mem_cons, List.not_mem_nil, or_false] at h
        rcases h with rfl | rfl <;> exact .rfl
  | keyed =>
    refine .keyed rfl (choices.setBy_write rfl rfl rfl (fun extent => ?_) rfl)
    cases extent <;> rfl
  | listed =>
    refine .listed (choices.setBy_write rfl rfl rfl (fun extent => ?_) rfl)
    cases extent <;> rfl

end Choices

/-! ## Decoding choices -/

/-- A family of outcomes, one for each form, that differ only in the labels of warnings. -/
def Form.Uniform {α : Type} (outcome : Form → Outcome α) : Prop :=
  ∃ (unread : List Unread) (result : Except Fault α), ∀ form,
    outcome form = { warnings := unread.map (Unread.warning form), result }

namespace Form
variable {α β : Type}

theorem uniform_pure (value : α) : Uniform fun _ => pure value := ⟨[], .ok value, fun _ => rfl⟩

theorem Uniform.bind {first : Form → Outcome α} {next : Form → α → Outcome β}
    (hfirst : Uniform first) (hnext : ∀ value, Uniform fun form => next form value) :
    Uniform fun form => first form >>= next form := by
  obtain ⟨unread, result, hfirst⟩ := hfirst
  cases result with
  | error fault =>
    refine ⟨unread, .error fault, fun form => ?_⟩
    dsimp only
    rw [hfirst, Outcome.bind_eq_andThen, Outcome.andThen]
  | ok value =>
    obtain ⟨more, result, hnext⟩ := hnext value
    refine ⟨unread ++ more, result, fun form => ?_⟩
    have hform : next form value = { warnings := more.map (Unread.warning form), result } :=
      hnext form
    dsimp only
    rw [hfirst, Outcome.bind_eq_andThen, Outcome.andThen, List.map_append]
    dsimp only
    rw [hform]

/-- One number that is read under the label of each form. -/
theorem uniform_readNumber (quantity : Quantity) (value : Value) (default : Double) :
    Uniform fun form => readNumber (form.label quantity) value default := by
  unfold readNumber
  split
  · cases value.number? with
    | some x => exact uniform_pure x
    | none =>
      dsimp only
      unfold Outcome.shown
      cases value.shown? with
      | none => exact ⟨[], .error .unprintable, fun _ => rfl⟩
      | some shown => exact ⟨[⟨quantity, shown, default⟩], .ok default, fun _ => rfl⟩
  · exact uniform_pure default

/-- Numbers that are read under the labels of each form. -/
theorem uniform_readAll {ι : Type} (items : List ι) (quantity : ι → Quantity) (value : ι → Value)
    (default : ι → Double) :
    Uniform fun form => Reading.readAll (items.map fun item =>
      { label := form.label (quantity item), value := value item, default := default item }) := by
  induction items with
  | nil => exact uniform_pure []
  | cons item items ih =>
    simp only [List.map_cons, Reading.readAll_cons]
    refine (uniform_readNumber _ _ _).bind fun x => ?_
    exact ih.bind fun xs => uniform_pure (x :: xs)

end Form

namespace Choices
variable (choices : Choices)

/-- Some choices, decoded from a form. -/
def decoded (form : Form) : Outcome Profile :=
  Profile.ofReadings choices.mode choices.bedKind choices.bedShape
    (choices.mode.readings (fun parameter => form.label (.parameter parameter)) choices.parameter)
    (choices.bedKind.readings (fun extent => form.label (.extent extent)) choices.extent)

theorem uniform_decoded : Form.Uniform choices.decoded := by
  have hparameters := Form.uniform_readAll (Technique.defaults choices.mode).parameters
    (fun entry => .parameter entry.1) (fun entry => choices.parameter entry.1) Prod.snd
  have hsizes := Form.uniform_readAll choices.bedKind.extents .extent choices.extent Extent.default
  exact hparameters.bind fun parameters => hsizes.bind fun sizes => Form.uniform_pure _

variable {choices}

theorem SpelledBy.ofValue_eq {value : Value} (h : choices.SpelledBy value) :
    Profile.ofValue value = choices.decoded .spelled := by
  have hspelled : SpelledProfile.ofValue? value = some {
      mode := choices.mode
      technique := value.field "process"
      bedKind := choices.bedKind
      bed := value.field "bed"
      bedShape := value.field "bedShape" } := by
    rw [SpelledProfile.ofValue?, h.mode, h.bedKind]
    simp only [Mode.ofName?_name, BedKind.ofName?_name, bind, Option.bind_some, pure]
  have hvalue : Profile.ofValue value = Profile.ofStructure value := by
    cases value with
    | text text => cases h.mode
    | _ => rfl
  rw [hvalue, Profile.ofStructure_eq, hspelled, Option.map_some, Option.getD_some,
    SpelledProfile.toProfile_eq]
  exact Profile.ofReadings_congr h.parameter h.extent h.bedShape

theorem SetBy.toProfile_eq {settings : Settings} (h : choices.SetBy settings) :
    settings.toProfile = Profile.ofReadings choices.mode choices.bedKind choices.bedShape
      (choices.mode.readings (fun parameter => "param " ++ parameter.key) choices.parameter)
      (choices.bedKind.readings Extent.key choices.extent) := by
  rw [settings.toProfile_of_named h.mode.readMode_eq h.bedKind.readBedKind_eq]
  exact Profile.ofReadings_congr h.parameter h.extent h.bedShape

/-- What is decoded from a value depends on the choices it was written from, and on the form. -/
theorem Written.ofValue_eq {form : Form} {value : Value} (h : choices.Written form value) :
    Profile.ofValue value = choices.decoded form := by
  cases h with
  | spelled h => exact h.ofValue_eq
  | @keyed fields hprocess h =>
    have hunspelled : SpelledProfile.ofValue? (.record fields) = none := by
      have hfield : (Value.record fields).field "process" = .absent := by
        rw [Value.field, hprocess, Option.getD_none]
      rw [SpelledProfile.ofValue?, hfield]
      rfl
    change Profile.ofStructure (.record fields) = _
    rw [Profile.ofStructure_eq, hunspelled]
    exact h.toProfile_eq
  | @listed items h =>
    change Profile.ofStructure (.list items) = _
    rw [Profile.ofStructure_eq]
    exact h.toProfile_eq

/-- **The form does not matter.**  Any choices can be written in each of the three forms, and all
values that write them, in whichever form and with whatever is missing left out, nothing or null,
are decoded to the same profile or the same fault, with the same warnings but for the labels of the
form. -/
theorem ofValue_written (choices : Choices) :
    (∀ form, ∃ value, choices.Written form value) ∧
    ∃ (unread : List Unread) (result : Except Fault Profile),
      ∀ form value, choices.Written form value →
        Profile.ofValue value = { warnings := unread.map (Unread.warning form), result } := by
  refine ⟨fun form => ⟨_, choices.written_write form⟩, ?_⟩
  obtain ⟨unread, result, hdecoded⟩ := choices.uniform_decoded
  exact ⟨unread, result, fun form value h => h.ofValue_eq.trans (hdecoded form)⟩

end Choices

/-! ### A paste on a cylindrical bed

Two numbers are unreadable, one is in base sixteen, and what is missing is missing in each of the
three ways. -/

/-- The choices of the example. -/
def clayChoices : Choices where
  mode := .paste
  bedKind := .cylindrical
  parameter
    | .feedRate => .text "0x10"
    | .curePause => .text "soon"
    | _ => .absent
  extent
    | .radius => .text "wide"
    | _ => .absent
  bedShape := .absent

/-- The example spelled out. -/
def claySpelled : Value :=
  .record [
    ("process", .record [("mode", .text "paste"), ("curePause", .text "soon"),
      ("pressure", .null), ("feedRate", .text "0x10")]),
    ("bed", .record [("kind", .text "bed.cylindrical"), ("radius", .text "wide")])]

/-- The settings of the example under their keys. -/
def clayFields : List (String × Value) :=
  [("PrinterType", .text "DELTA"), ("Mode", .text " Clay "), ("BedRadius", .text "wide"),
    ("BedZ", .null),
    ("Params", .record [("FeedRate", .text "0x10"), ("CurePause", .text "soon")])]

/-- The settings of the example by position, as far as there are any. -/
def clayItems : List Value :=
  [.text "paste", .text "cylindrical",
    .record [("FlowRate", .null), ("CurePause", .text "soon"), ("FeedRate", .text "0x10")],
    .absent, .null, .absent, .text "wide"]

theorem clayChoices_setBy {settings : Settings}
    (hmode : settings.NamesMode .paste) (hkind : settings.NamesBedKind .cylindrical)
    (hparameter : ∀ parameter, (settings.parameters.field parameter.key).Same
      (clayChoices.parameter parameter))
    (hextent : ∀ extent, (settings.extent extent).Same (clayChoices.extent extent))
    (hshape : settings.bedShape.Same .absent) : clayChoices.SetBy settings :=
  ⟨hmode, hkind, fun parameter _ => hparameter parameter, fun extent _ => hextent extent, hshape⟩

/-- The example is decoded alike from its three forms. -/
theorem ofValue_written_clay :
    clayChoices.Written .spelled claySpelled ∧
    clayChoices.Written .keyed (.record clayFields) ∧
    clayChoices.Written .listed (.list clayItems) ∧
    ∃ (unread : List Unread) (result : Except Fault Profile),
      Profile.ofValue claySpelled =
        { warnings := unread.map (Unread.warning .spelled), result } ∧
      Profile.ofValue (.record clayFields) =
        { warnings := unread.map (Unread.warning .keyed), result } ∧
      Profile.ofValue (.list clayItems) =
        { warnings := unread.map (Unread.warning .listed), result } := by
  have hspelled : clayChoices.Written .spelled claySpelled := by
    refine .spelled ⟨rfl, rfl, fun parameter _ => ?_, fun extent _ => ?_, .rfl⟩
    · cases parameter with
      | pressure => exact .inr ⟨rfl, rfl⟩
      | _ => exact .rfl
    · cases extent <;> exact .rfl
  have hkeyed : clayChoices.Written .keyed (.record clayFields) := by
    refine .keyed rfl (clayChoices_setBy (.inl ⟨_, rfl, rfl⟩) (.inl ⟨_, rfl, rfl⟩) ?_ ?_ .rfl)
    · intro parameter
      cases parameter <;> exact .rfl
    · intro extent
      cases extent with
      | z => exact .inr ⟨rfl, rfl⟩
      | _ => exact .rfl
  have hlisted : clayChoices.Written .listed (.list clayItems) := by
    refine .listed (clayChoices_setBy (.inl ⟨_, rfl, rfl⟩) (.inl ⟨_, rfl, rfl⟩) ?_ ?_ .rfl)
    · intro parameter
      cases parameter with
      | flowRate => exact .inr ⟨rfl, rfl⟩
      | _ => exact .rfl
    · intro extent
      cases extent with
      | y => exact .inr ⟨rfl, rfl⟩
      | _ => exact .rfl
  obtain ⟨-, unread, result, hwritten⟩ := clayChoices.ofValue_written
  exact ⟨hspelled, hkeyed, hlisted, unread, result, hwritten _ _ hspelled, hwritten _ _ hkeyed,
    hwritten _ _ hlisted⟩
end Toolpath
