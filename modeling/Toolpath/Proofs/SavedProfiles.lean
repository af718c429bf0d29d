import Toolpath.Proofs.DecodingFaults
import Toolpath.Proofs.PrintedJson
import Toolpath.Proofs.SoundProfiles

/-! # Profiles that are saved

A profile that was read can be kept as a JSON text.  The text is read as the same profile, without a
warning, whatever the profile was first read from (`Profile.ofValue_saved`).  All that is lost is
the sign of a zero among its numbers.
-/
namespace Toolpath

/-! ## Numbers changed one by one -/

/-- The technique with a function applied to every parameter. -/
def Technique.map (f : Double → Double) : Technique → Technique
  | thermoplastic s => thermoplastic {
      nozzleTemp := f s.nozzleTemp
      bedTemp := f s.bedTemp
      extrusionMultiplier := f s.extrusionMultiplier
      feedRate := f s.feedRate
      clearanceHeight := f s.clearanceHeight }
  | paste s => paste {
      pressure := f s.pressure
      flowRate := f s.flowRate
      retractionDelay := f s.retractionDelay
      curePause := f s.curePause
      feedRate := f s.feedRate
      clearanceHeight := f s.clearanceHeight }
  | motion s => motion {
      penUpHeight := f s.penUpHeight
      penDownOffset := f s.penDownOffset
      penDownDelay := f s.penDownDelay
      feedRate := f s.feedRate
      clearanceHeight := f s.clearanceHeight }

/-- The bed with a function applied to every size. -/
def Bed.map (f : Double → Double) : Bed → Bed
  | rectangular maxX maxY maxZ => rectangular (f maxX) (f maxY) (f maxZ)
  | cylindrical radius maxZ => cylindrical (f radius) (f maxZ)

/-- The profile without the signs of zeros.  No coordinate of a bed shape that was read is a
negative zero. -/
def Profile.unsignedZeros (profile : Profile) : Profile where
  technique := profile.technique.map Double.unsignedZero
  bed := profile.bed.map Double.unsignedZero
  bedShape := profile.bedShape

namespace Technique
variable (f : Double → Double) (technique : Technique)

theorem parameters_map :
    (technique.map f).parameters =
      technique.parameters.map fun entry => (entry.1, f entry.2) := by
  cases technique <;> rfl

theorem mode_map : (technique.map f).mode = technique.mode := by
  cases technique <;> rfl

variable {technique}

theorem IsFinite.unsignedZeros (h : technique.IsFinite) :
    (technique.map Double.unsignedZero).IsFinite := by
  intro entry hentry
  rw [parameters_map] at hentry
  obtain ⟨source, hsource, rfl⟩ := List.mem_map.mp hentry
  exact Double.isFinite_unsignedZero (h source hsource)

end Technique

theorem Bed.IsFinite.unsignedZeros {bed : Bed} (h : bed.IsFinite) :
    (bed.map Double.unsignedZero).IsFinite := by
  cases bed with
  | rectangular maxX maxY maxZ =>
    obtain ⟨hx, hy, hz⟩ := h
    exact ⟨Double.isFinite_unsignedZero hx, Double.isFinite_unsignedZero hy,
      Double.isFinite_unsignedZero hz⟩
  | cylindrical radius maxZ =>
    obtain ⟨hradius, hz⟩ := h
    exact ⟨Double.isFinite_unsignedZero hradius, Double.isFinite_unsignedZero hz⟩

theorem Profile.IsSound.unsignedZeros {profile : Profile} (h : profile.IsSound) :
    profile.unsignedZeros.IsSound :=
  ⟨h.technique.unsignedZeros, h.bed.unsignedZeros, h.bedShape⟩

/-! ## What is read back -/

theorem Json.readBack_number {x : Double} (h : x.isFinite = true) :
    (Json.number x).readBack = .number x.unsignedZero := by
  rw [readBack, if_pos h]

theorem Double.IsRounded.unsignedZero_eq {x : Double} (h : x.IsRounded) : x.unsignedZero = x := by
  have hcoordinate := h.isCoordinate
  cases x with
  | nan => rfl
  | infinite negative => rfl
  | finite negative size =>
    by_cases hzero : size.units = 0
    · have heq : finite negative size = zero negative :=
        congrArg (finite negative) (Magnitude.ext hzero)
      rw [heq, unsignedZero_zero, hcoordinate.2 hzero]
    · exact unsignedZero_finite hzero

theorem Point.readBack_toJson {point : Point} (h : point.IsRounded) :
    point.toJson.readBack = point.toJson := by
  simp only [toJson, Json.readBack, Json.readBackItems, if_pos h.x.isFinite, if_pos h.y.isFinite,
    if_pos h.z.isFinite, h.x.unsignedZero_eq, h.y.unsignedZero_eq, h.z.unsignedZero_eq]

theorem Path.readBack_toJson {path : Path} (h : path.IsRounded) :
    path.toJson.readBack = path.toJson := by
  rw [toJson, Json.readBack, Json.readBackItems_eq_map, List.map_map]
  exact congrArg Json.list (List.map_congr_left fun point hpoint =>
    Point.readBack_toJson (h.isRounded point hpoint))

theorem Technique.readBack_toJson {technique : Technique} (h : technique.IsFinite) :
    technique.toJson.readBack = (technique.map Double.unsignedZero).toJson := by
  have hfield : ∀ entry ∈ technique.parameters,
      (entry.1.name, (Json.number entry.2).readBack) =
        (entry.1.name, .number entry.2.unsignedZero) :=
    fun entry hentry => congrArg (Prod.mk entry.1.name) (Json.readBack_number (h entry hentry))
  rw [toJson, toJson, parameters_map, mode_map, Json.readBack, Json.readBackFields, Json.readBack,
    Json.readBackFields_eq_map, List.map_map, List.map_map]
  exact congrArg (fun fields => Json.record (("mode", .text technique.mode.name) :: fields))
    (List.map_congr_left hfield)

theorem Bed.readBack_toJson {bed : Bed} (h : bed.IsFinite) :
    bed.toJson.readBack = (bed.map Double.unsignedZero).toJson := by
  cases bed with
  | rectangular maxX maxY maxZ =>
    obtain ⟨hx, hy, hz⟩ := h
    simp only [toJson, map, kindName, Json.readBack, Json.readBackFields, if_pos hx, if_pos hy,
      if_pos hz]
  | cylindrical radius maxZ =>
    obtain ⟨hradius, hz⟩ := h
    simp only [toJson, map, kindName, Json.readBack, Json.readBackFields, if_pos hradius,
      if_pos hz]

/-! ## Names -/

/-- The names in a technique that is written down differ. -/
theorem Mode.nodup_names (mode : Mode) : ("mode" :: mode.parameters.map Parameter.name).Nodup := by
  cases mode <;> decide

namespace Json.NamesDiffer

theorem point (point : Point) : point.toJson.NamesDiffer := by
  refine .list fun item hitem => ?_
  simp only [List.mem_cons, List.not_mem_nil, or_false] at hitem
  rcases hitem with rfl | rfl | rfl <;> exact .number _

theorem path (path : Path) : path.toJson.NamesDiffer := by
  refine .list fun item hitem => ?_
  obtain ⟨source, -, rfl⟩ := List.mem_map.mp hitem
  exact .point source

theorem technique (technique : Technique) : technique.toJson.NamesDiffer := by
  refine .record ?_ fun field hfield => ?_
  · have hnames := technique.mode.nodup_names
    rw [← technique.map_fst_parameters, List.map_map] at hnames
    rw [List.map_cons, List.map_map]
    exact hnames
  · rcases List.mem_cons.mp hfield with rfl | hfield
    · exact .text _
    · obtain ⟨entry, -, rfl⟩ := List.mem_map.mp hfield
      exact .number _

theorem bed (bed : Bed) : bed.toJson.NamesDiffer := by
  cases bed with
  | rectangular maxX maxY maxZ =>
    have hnames : ["kind", "maxX", "maxY", "maxZ"].Nodup := by decide
    refine .record hnames fun field hfield => ?_
    simp only [List.mem_cons, List.not_mem_nil, or_false] at hfield
    rcases hfield with rfl | rfl | rfl | rfl
    · exact .text _
    all_goals exact .number _
  | cylindrical radius maxZ =>
    have hnames : ["kind", "radius", "maxZ"].Nodup := by decide
    refine .record hnames fun field hfield => ?_
    simp only [List.mem_cons, List.not_mem_nil, or_false] at hfield
    rcases hfield with rfl | rfl | rfl
    · exact .text _
    all_goals exact .number _

theorem profile (profile : Profile) : profile.toJson.NamesDiffer := by
  obtain ⟨technique, bed, bedShape⟩ := profile
  cases bedShape with
  | none =>
    have hnames : ["process", "bed"].Nodup := by decide
    refine .record hnames fun field hfield => ?_
    simp only [Option.map_none, Option.toList_none, List.append_nil, List.mem_cons,
      List.not_mem_nil, or_false] at hfield
    rcases hfield with rfl | rfl
    · exact .technique technique
    · exact .bed bed
  | some shape =>
    have hnames : ["process", "bed", "bedShape"].Nodup := by decide
    refine .record hnames fun field hfield => ?_
    simp only [Option.map_some, Option.toList_some, List.cons_append, List.nil_append,
      List.mem_cons, List.not_mem_nil, or_false] at hfield
    rcases hfield with rfl | rfl | rfl
    · exact .technique technique
    · exact .bed bed
    · exact .path shape

end Json.NamesDiffer

/-! ## Saving a profile -/

namespace Profile
variable {profile : Profile}

theorem readBack_toJson (h : profile.IsSound) :
    profile.toJson.readBack = profile.unsignedZeros.toJson := by
  obtain ⟨technique, bed, bedShape⟩ := profile
  have htechnique := Technique.readBack_toJson h.technique
  have hbed := Bed.readBack_toJson h.bed
  cases bedShape with
  | none =>
    simp only [toJson, unsignedZeros, Option.map_none, Option.toList_none, List.append_nil,
      Json.readBack, Json.readBackFields, htechnique, hbed]
  | some shape =>
    have hshape := Path.readBack_toJson (h.bedShape shape rfl)
    simp only [toJson, unsignedZeros, Option.map_some, Option.toList_some, List.cons_append,
      List.nil_append, Json.readBack, Json.readBackFields, htechnique, hbed, hshape]

/-- **A profile that was read and saved** as a text is read from the text as the same profile, up to
the signs of zeros, and without a warning. -/
theorem ofValue_saved {value : Value} (h : (ofValue value).result = .ok profile) :
    ofValue (.text profile.toJson.toText) = pure profile.unsignedZeros := by
  have hsound := yields_ofValue value profile h
  have hread : Json.ofEitherText? profile.toJson.toText = some profile.unsignedZeros.toJson := by
    rw [Json.ofEitherText?_toText (.profile profile), readBack_toJson hsound]
  have hnonempty : profile.toJson.toText.isEmpty = false := by
    rw [← Bool.not_eq_true, String.isEmpty_iff]
    intro hempty
    rw [hempty, Json.ofEitherText?_empty] at hread
    cases hread
  have hvalue : ofValue (.text profile.toJson.toText) =
      ofStructure (.ofJson profile.unsignedZeros.toJson) := by
    rw [ofValue, hnonempty, if_neg Bool.false_ne_true, ofText, hread]
    rfl
  exact hvalue.trans (ofValue_toJson hsound.unsignedZeros)

/-- Settings with the least number there is, a negative zero and a coordinate to be rounded. -/
def savedSettings : Value :=
  .list [.text " Clay ", .text "DELTA",
    .record [("FlowRate", .number (.ofRatio false 1 1)), ("CurePause", .number (.zero true)),
      ("FeedRate", .text "0x10")],
    .null, .absent, .text "1e2", .text " .1 ",
    .list [.list [.number 1.0625, .number 0, .number (-7)]]]

/-- The profile that is read from these settings. -/
def savedProfile : Profile where
  technique := .paste { Paste.defaults with
    flowRate := .ofRatio false 1 1
    curePause := .zero true
    feedRate := 16 }
  bed := .cylindrical 0.1 100
  bedShape := some [⟨1.062, 0, -7⟩]

/-- That profile as it is saved. -/
def savedText : String :=
  "\x7b\"process\":\x7b\"mode\":\"paste\",\"pressure\":4,\"flowRate\":5e-324," ++
    "\"retractionDelay\":0.5,\"curePause\":0,\"feedRate\":16,\"clearanceHeight\":5\x7d," ++
    "\"bed\":\x7b\"kind\":\"bed.cylindrical\",\"radius\":0.1,\"maxZ\":100\x7d," ++
    "\"bedShape\":[[1.062,0,-7]]\x7d"

theorem toText_savedProfile : savedProfile.toJson.toText = savedText := by
  have hchars : savedProfile.toJson.toChars none = savedText.toList := by decide +kernel
  rw [Json.toText, hchars, String.ofList_toList]

theorem ofValue_saved_settings :
    (ofValue savedSettings).result = .ok savedProfile ∧
      savedProfile.toJson.toText = savedText ∧
      ofValue (.text savedText) = pure savedProfile.unsignedZeros := by
  have hread : (ofValue savedSettings).result = .ok savedProfile :=
    Outcome.result_eq_ok (by decide +kernel)
  have hsaved := ofValue_saved hread
  rw [toText_savedProfile] at hsaved
  exact ⟨hread, toText_savedProfile, hsaved⟩

end Profile
end Toolpath
