import Toolpath.Profile.Decoding
import Toolpath.Proofs.RoundedPaths

/-! # Profiles that have been read

Whatever a profile is read from, every number in it is finite and its bed shape, if it has one, is a
rounded path (`Profile.yields_ofValue`).  That is all a profile needs to be read as itself, without
a warning, when it is written down and handed back (`Profile.ofValue_toJson`).
-/
namespace Toolpath

namespace Outcome
variable {α β : Type} {P : α → Prop} {Q : β → Prop}

/-- Every result that an outcome can have satisfies a condition. -/
def Yields (P : α → Prop) (outcome : Outcome α) : Prop :=
  ∀ value, outcome.result = .ok value → P value

theorem yields_pure {value : α} (h : P value) : (pure value : Outcome α).Yields P := by
  intro other hother
  cases hother
  exact h

theorem Yields.bind {first : Outcome α} {next : α → Outcome β} (hfirst : first.Yields P)
    (hnext : ∀ value, P value → (next value).Yields Q) : (first >>= next).Yields Q := by
  intro result hresult
  obtain ⟨warnings, outcome⟩ := first
  cases outcome with
  | error fault => cases hresult
  | ok value => exact hnext value (hfirst value rfl) result hresult

/-- What comes first need not have a result of any particular kind. -/
theorem yields_bind (first : Outcome α) {next : α → Outcome β}
    (h : ∀ value, (next value).Yields Q) : (first >>= next).Yields Q :=
  Yields.bind (P := fun _ => True) (fun _ _ => trivial) fun value _ => h value

end Outcome

open Outcome

/-! ## Numbers -/

theorem Value.isFinite_of_number? {value : Value} {x : Double} (h : value.number? = some x) :
    x.isFinite = true := by
  unfold number? at h
  exact (Option.filter_eq_some_iff.mp h).2

/-- A number that is read is finite, since its default is. -/
theorem yields_readNumber (label : String) (value : Value) {default : Double}
    (h : default.isFinite = true) :
    (readNumber label value default).Yields fun x => x.isFinite = true := by
  unfold readNumber
  split
  · split
    · rename_i x hx
      exact yields_pure (Value.isFinite_of_number? hx)
    · exact yields_bind _ fun shown => yields_bind _ fun _ => yields_pure h
  · exact yields_pure h

/-- A finite number is read as itself. -/
theorem readNumber_number (label : String) {x : Double} (default : Double)
    (h : x.isFinite = true) : readNumber label (.number x) default = pure x := by
  have hnumber : (Value.number x).number? = some x := Option.filter_eq_some_iff.mpr ⟨rfl, h⟩
  rw [readNumber, hnumber]
  rfl

/-! ## Techniques -/

namespace Technique

/-- Every parameter is finite. -/
def IsFinite (technique : Technique) : Prop :=
  ∀ entry ∈ technique.parameters, entry.2.isFinite = true

theorem isFinite_defaults (mode : Mode) : (defaults mode).IsFinite := by
  unfold IsFinite
  cases mode <;> decide +kernel

theorem isFinite_thermoplastic {settings : Thermoplastic} :
    (thermoplastic settings).IsFinite ↔
      settings.nozzleTemp.isFinite = true ∧ settings.bedTemp.isFinite = true ∧
        settings.extrusionMultiplier.isFinite = true ∧ settings.feedRate.isFinite = true ∧
        settings.clearanceHeight.isFinite = true := by
  simp only [IsFinite, parameters, List.forall_mem_cons, List.not_mem_nil, false_imp_iff,
    implies_true, and_true]

theorem isFinite_paste {settings : Paste} :
    (paste settings).IsFinite ↔
      settings.pressure.isFinite = true ∧ settings.flowRate.isFinite = true ∧
        settings.retractionDelay.isFinite = true ∧ settings.curePause.isFinite = true ∧
        settings.feedRate.isFinite = true ∧ settings.clearanceHeight.isFinite = true := by
  simp only [IsFinite, parameters, List.forall_mem_cons, List.not_mem_nil, false_imp_iff,
    implies_true, and_true]

theorem isFinite_motion {settings : PenMotion} :
    (motion settings).IsFinite ↔
      settings.penUpHeight.isFinite = true ∧ settings.penDownOffset.isFinite = true ∧
        settings.penDownDelay.isFinite = true ∧ settings.feedRate.isFinite = true ∧
        settings.clearanceHeight.isFinite = true := by
  simp only [IsFinite, parameters, List.forall_mem_cons, List.not_mem_nil, false_imp_iff,
    implies_true, and_true]

/-- A technique is finite if every parameter is read as a finite number when its default is one. -/
theorem yields_build {read : Parameter → Double → Outcome Double}
    (h : ∀ parameter default, default.isFinite = true →
      (read parameter default).Yields fun x => x.isFinite = true) (mode : Mode) :
    (build read mode).Yields IsFinite := by
  have hdefaults := isFinite_defaults mode
  cases mode with
  | thermoplastic =>
    obtain ⟨hnozzle, hbed, hmultiplier, hfeed, hclearance⟩ := isFinite_thermoplastic.mp hdefaults
    refine (h _ _ hnozzle).bind fun nozzleTemp hnozzle => ?_
    refine (h _ _ hbed).bind fun bedTemp hbed => ?_
    refine (h _ _ hmultiplier).bind fun extrusionMultiplier hmultiplier => ?_
    refine (h _ _ hfeed).bind fun feedRate hfeed => ?_
    refine (h _ _ hclearance).bind fun clearanceHeight hclearance => ?_
    exact yields_pure (isFinite_thermoplastic.mpr ⟨hnozzle, hbed, hmultiplier, hfeed, hclearance⟩)
  | paste =>
    obtain ⟨hpressure, hflow, hdelay, hpause, hfeed, hclearance⟩ := isFinite_paste.mp hdefaults
    refine (h _ _ hpressure).bind fun pressure hpressure => ?_
    refine (h _ _ hflow).bind fun flowRate hflow => ?_
    refine (h _ _ hdelay).bind fun retractionDelay hdelay => ?_
    refine (h _ _ hpause).bind fun curePause hpause => ?_
    refine (h _ _ hfeed).bind fun feedRate hfeed => ?_
    refine (h _ _ hclearance).bind fun clearanceHeight hclearance => ?_
    exact yields_pure (isFinite_paste.mpr ⟨hpressure, hflow, hdelay, hpause, hfeed, hclearance⟩)
  | motion =>
    obtain ⟨hup, hoffset, hdelay, hfeed, hclearance⟩ := isFinite_motion.mp hdefaults
    refine (h _ _ hup).bind fun penUpHeight hup => ?_
    refine (h _ _ hoffset).bind fun penDownOffset hoffset => ?_
    refine (h _ _ hdelay).bind fun penDownDelay hdelay => ?_
    refine (h _ _ hfeed).bind fun feedRate hfeed => ?_
    refine (h _ _ hclearance).bind fun clearanceHeight hclearance => ?_
    exact yields_pure (isFinite_motion.mpr ⟨hup, hoffset, hdelay, hfeed, hclearance⟩)

/-- A technique is built from its own parameters. -/
theorem build_parameters {read : Parameter → Double → Outcome Double} {technique : Technique}
    (h : ∀ entry ∈ technique.parameters, ∀ default, read entry.1 default = pure entry.2) :
    build read technique.mode = pure technique := by
  cases technique with
  | thermoplastic settings =>
    simp only [parameters, List.forall_mem_cons] at h
    obtain ⟨hnozzle, hbed, hmultiplier, hfeed, hclearance, -⟩ := h
    simp only [mode, build, hnozzle, hbed, hmultiplier, hfeed, hclearance, pure_bind]
  | paste settings =>
    simp only [parameters, List.forall_mem_cons] at h
    obtain ⟨hpressure, hflow, hdelay, hpause, hfeed, hclearance, -⟩ := h
    simp only [mode, build, hpressure, hflow, hdelay, hpause, hfeed, hclearance, pure_bind]
  | motion settings =>
    simp only [parameters, List.forall_mem_cons] at h
    obtain ⟨hup, hoffset, hdelay, hfeed, hclearance, -⟩ := h
    simp only [mode, build, hup, hoffset, hdelay, hfeed, hclearance, pure_bind]

end Technique

/-! ## Beds -/

/-- Every size of the bed is finite. -/
def Bed.IsFinite : Bed → Prop
  | rectangular maxX maxY maxZ =>
    maxX.isFinite = true ∧ maxY.isFinite = true ∧ maxZ.isFinite = true
  | cylindrical radius maxZ => radius.isFinite = true ∧ maxZ.isFinite = true

def Bed.kind : Bed → BedKind
  | rectangular _ _ _ => .rectangular
  | cylindrical _ _ => .cylindrical

theorem BedKind.ofName?_kindName (bed : Bed) : ofName? bed.kindName = some bed.kind := by
  cases bed <;> rfl

theorem BedSize.isFinite_defaults :
    defaults.x.isFinite = true ∧ defaults.y.isFinite = true ∧ defaults.z.isFinite = true ∧
      defaults.radius.isFinite = true := by
  decide +kernel

/-! ## Profiles -/

/-- A profile of finite numbers, with a bed shape that has been rounded if there is one. -/
structure Profile.IsSound (profile : Profile) : Prop where
  technique : profile.technique.IsFinite
  bed : profile.bed.IsFinite
  bedShape : ∀ shape ∈ profile.bedShape, shape.IsRounded

/-- A bed is finite if its height is and its other sizes are read as finite numbers. -/
theorem yields_bed {readX readY readRadius : Outcome Double} {maxZ : Double}
    (hz : maxZ.isFinite = true) (hx : readX.Yields fun x => x.isFinite = true)
    (hy : readY.Yields fun x => x.isFinite = true)
    (hradius : readRadius.Yields fun x => x.isFinite = true) (kind : BedKind) :
    (match kind with
      | .rectangular => do
        let maxX ← readX
        let maxY ← readY
        return Bed.rectangular maxX maxY maxZ
      | .cylindrical => do
        let radius ← readRadius
        return Bed.cylindrical radius maxZ : Outcome Bed).Yields Bed.IsFinite := by
  cases kind with
  | rectangular => exact hx.bind fun _ hx => hy.bind fun _ hy => yields_pure ⟨hx, hy, hz⟩
  | cylindrical => exact hradius.bind fun _ hradius => yields_pure ⟨hradius, hz⟩

theorem SpelledProfile.yields_readBed (spelled : SpelledProfile) :
    spelled.readBed.Yields Bed.IsFinite := by
  obtain ⟨hx, hy, hz, hradius⟩ := BedSize.isFinite_defaults
  refine (yields_readNumber _ _ hz).bind fun maxZ hz => ?_
  exact yields_bed hz (yields_readNumber _ _ hx) (yields_readNumber _ _ hy)
    (yields_readNumber _ _ hradius) spelled.bedKind

theorem Settings.yields_readBed (settings : Settings) : settings.readBed.Yields Bed.IsFinite := by
  obtain ⟨hx, hy, hz, hradius⟩ := BedSize.isFinite_defaults
  refine yields_bind _ fun kind => ?_
  refine (yields_readNumber _ _ hz).bind fun maxZ hz => ?_
  exact yields_bed hz (yields_readNumber _ _ hx) (yields_readNumber _ _ hy)
    (yields_readNumber _ _ hradius) kind

namespace Profile

theorem isSound_of_read {technique : Technique} {bed : Bed} {shape : Value}
    (htechnique : technique.IsFinite) (hbed : bed.IsFinite) :
    IsSound { technique, bed, bedShape := Path.ofValue? shape } :=
  ⟨htechnique, hbed, fun _ hshape => Path.isRounded_of_ofValue? hshape⟩

theorem yields_spelled (spelled : SpelledProfile) : spelled.toProfile.Yields IsSound := by
  unfold SpelledProfile.toProfile
  refine (Technique.yields_build (fun parameter default h => yields_readNumber _ _ h) _).bind
    fun technique htechnique => ?_
  refine spelled.yields_readBed.bind fun bed hbed => ?_
  exact yields_pure (isSound_of_read htechnique hbed)

theorem yields_settings (settings : Settings) : settings.toProfile.Yields IsSound := by
  unfold Settings.toProfile
  refine yields_bind _ fun mode => ?_
  refine (Technique.yields_build (fun parameter default h => yields_readNumber _ _ h) _).bind
    fun technique htechnique => ?_
  refine settings.yields_readBed.bind fun bed hbed => ?_
  exact yields_pure (isSound_of_read htechnique hbed)

theorem isSound_defaults : defaults.IsSound := by
  obtain ⟨hx, hy, hz, -⟩ := BedSize.isFinite_defaults
  exact ⟨Technique.isFinite_defaults .motion, ⟨hx, hy, hz⟩, fun _ h => by cases h⟩

theorem yields_ofStructure (value : Value) : (ofStructure value).Yields IsSound := by
  unfold ofStructure
  split
  · exact yields_spelled _
  · split
    · exact yields_pure isSound_defaults
    · exact yields_pure isSound_defaults
    · exact yields_pure isSound_defaults
    · exact yields_settings _
    · exact yields_pure isSound_defaults
    · exact yields_settings _
    · exact yields_settings _
    · exact yields_bind _ fun _ => yields_pure isSound_defaults

/-- **Every profile that is read is sound**, whatever it is read from. -/
theorem yields_ofValue (value : Value) : (ofValue value).Yields IsSound := by
  unfold ofValue
  split
  · split
    · exact yields_pure isSound_defaults
    · unfold ofText
      split
      · exact yields_ofStructure _
      · exact yields_ofStructure _
      · exact yields_bind _ fun _ => yields_pure isSound_defaults
  · exact yields_ofStructure _

/-! ## Handing a profile back -/

/-- A parameter stands under its name. -/
theorem field_toJson_technique {technique : Technique} {entry : Parameter × Double}
    (h : entry ∈ technique.parameters) :
    (Value.ofJson technique.toJson).field entry.1.name = .number entry.2 := by
  cases technique with
  | thermoplastic settings =>
    simp only [Technique.parameters, List.mem_cons, List.not_mem_nil, or_false] at h
    rcases h with rfl | rfl | rfl | rfl | rfl <;> rfl
  | paste settings =>
    simp only [Technique.parameters, List.mem_cons, List.not_mem_nil, or_false] at h
    rcases h with rfl | rfl | rfl | rfl | rfl | rfl <;> rfl
  | motion settings =>
    simp only [Technique.parameters, List.mem_cons, List.not_mem_nil, or_false] at h
    rcases h with rfl | rfl | rfl | rfl | rfl <;> rfl

/-- A sound profile that is written down spells itself out. -/
theorem ofValue?_toJson (profile : Profile) :
    SpelledProfile.ofValue? (.ofJson profile.toJson) = some {
      mode := profile.technique.mode
      technique := .ofJson profile.technique.toJson
      bedKind := profile.bed.kind
      bed := .ofJson profile.bed.toJson
      bedShape := (Value.ofJson profile.toJson).field "bedShape" } := by
  have hprocess : (Value.ofJson profile.toJson).field "process" =
      .ofJson profile.technique.toJson := rfl
  have hbed : (Value.ofJson profile.toJson).field "bed" = .ofJson profile.bed.toJson := rfl
  have hmode : (Value.ofJson profile.technique.toJson).field "mode" =
      .text profile.technique.mode.name := rfl
  have hkind : (Value.ofJson profile.bed.toJson).field "kind" = .text profile.bed.kindName := by
    cases profile.bed <;> rfl
  rw [SpelledProfile.ofValue?, hprocess, hbed, hmode, hkind]
  simp only [Mode.ofName?_name, BedKind.ofName?_kindName, bind, Option.bind_some, pure]

theorem readTechnique_toJson {profile : Profile} (h : profile.technique.IsFinite) :
    Technique.build
      (fun parameter => readNumber ("process." ++ parameter.name)
        ((Value.ofJson profile.technique.toJson).field parameter.name))
      profile.technique.mode = pure profile.technique := by
  refine Technique.build_parameters fun entry hentry default => ?_
  rw [field_toJson_technique hentry, readNumber_number _ _ (h entry hentry)]

theorem readBed_toJson (spelled : SpelledProfile) {bed : Bed} (h : bed.IsFinite)
    (hkind : spelled.bedKind = bed.kind) (hbed : spelled.bed = .ofJson bed.toJson) :
    spelled.readBed = pure bed := by
  unfold SpelledProfile.readBed
  rw [hkind, hbed]
  cases bed with
  | rectangular maxX maxY maxZ =>
    obtain ⟨hx, hy, hz⟩ := h
    have hfieldX : (Value.ofJson (Bed.rectangular maxX maxY maxZ).toJson).field "maxX" =
      .number maxX := rfl
    have hfieldY : (Value.ofJson (Bed.rectangular maxX maxY maxZ).toJson).field "maxY" =
      .number maxY := rfl
    have hfieldZ : (Value.ofJson (Bed.rectangular maxX maxY maxZ).toJson).field "maxZ" =
      .number maxZ := rfl
    simp only [hfieldX, hfieldY, hfieldZ, readNumber_number _ _ hx, readNumber_number _ _ hy,
      readNumber_number _ _ hz, pure_bind, Bed.kind]
  | cylindrical radius maxZ =>
    obtain ⟨hradius, hz⟩ := h
    have hfieldRadius : (Value.ofJson (Bed.cylindrical radius maxZ).toJson).field "radius" =
      .number radius := rfl
    have hfieldZ : (Value.ofJson (Bed.cylindrical radius maxZ).toJson).field "maxZ" =
      .number maxZ := rfl
    simp only [hfieldRadius, hfieldZ, readNumber_number _ _ hradius, readNumber_number _ _ hz,
      pure_bind, Bed.kind]

theorem ofValue?_bedShape_toJson {profile : Profile}
    (h : ∀ shape ∈ profile.bedShape, shape.IsRounded) :
    Path.ofValue? ((Value.ofJson profile.toJson).field "bedShape") = profile.bedShape := by
  obtain ⟨technique, bed, bedShape⟩ := profile
  cases bedShape with
  | none => rfl
  | some shape => exact Path.ofValue?_toJson (h shape rfl)

/-- **A sound profile handed back is read as itself**, without a warning. -/
theorem ofValue_toJson {profile : Profile} (h : profile.IsSound) :
    ofValue (.ofJson profile.toJson) = pure profile := by
  change ofStructure (.ofJson profile.toJson) = pure profile
  unfold ofStructure
  rw [ofValue?_toJson]
  dsimp only
  rw [SpelledProfile.toProfile, SpelledProfile.readTechnique]
  dsimp only
  rw [readTechnique_toJson h.technique, pure_bind, readBed_toJson _ h.bed rfl rfl, pure_bind,
    ofValue?_bedShape_toJson h.bedShape]

end Profile
end Toolpath
