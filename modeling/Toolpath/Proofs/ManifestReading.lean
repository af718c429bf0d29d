import Toolpath.Manifest
import Toolpath.Proofs.SavedProfiles
import Toolpath.Proofs.Surveys

/-! # Manifests read back

The text of a manifest is read as the manifest, with no sign on its zeros, and every number in it
stays a number (`Compilation.ofText?_manifestText`).  What is read tells how many lines and paths
there are, and which points and segments are bad (`Compilation.ToldBy`): its counts are those of the
program and of its own lists, its warnings are about the bad points in turn, and the bad segments go
from point to point of the paths.
-/
namespace Toolpath

/-! ## Numbers in a value -/

mutual

/-- A value with a function applied to each of its numbers. -/
def Json.mapNumbers (f : Double → Double) : Json → Json
  | .null => .null
  | .bool b => .bool b
  | .number x => .number (f x)
  | .text s => .text s
  | .list items => .list (mapNumbersItems f items)
  | .record fields => .record (mapNumbersFields f fields)

def Json.mapNumbersItems (f : Double → Double) : List Json → List Json
  | [] => []
  | item :: items => item.mapNumbers f :: mapNumbersItems f items

def Json.mapNumbersFields (f : Double → Double) : List (String × Json) → List (String × Json)
  | [] => []
  | (name, value) :: fields => (name, value.mapNumbers f) :: mapNumbersFields f fields

end

/-- Every number in a value, however deep, is finite. -/
inductive Json.NumbersFinite : Json → Prop
  | null : NumbersFinite .null
  | bool (b : Bool) : NumbersFinite (.bool b)
  | number {x : Double} (h : x.isFinite = true) : NumbersFinite (.number x)
  | text (s : String) : NumbersFinite (.text s)
  | list {items : List Json} (h : ∀ item ∈ items, NumbersFinite item) : NumbersFinite (.list items)
  | record {fields : List (String × Json)} (h : ∀ field ∈ fields, NumbersFinite field.2) :
    NumbersFinite (.record fields)

/-- The value of the field of a record with a name. -/
def Json.field? (json : Json) (name : String) : Option Json :=
  match json with
  | .record fields => (fields.find? fun field => field.1 == name).map (·.2)
  | _ => none

namespace Json

theorem mapNumbersItems_eq_map (f : Double → Double) (items : List Json) :
    mapNumbersItems f items = items.map (mapNumbers f) := by
  induction items with
  | nil => rfl
  | cons item items ih => rw [mapNumbersItems, List.map_cons, ih]

theorem mapNumbersFields_eq_map (f : Double → Double) (fields : List (String × Json)) :
    mapNumbersFields f fields = fields.map fun field => (field.1, field.2.mapNumbers f) := by
  induction fields with
  | nil => rfl
  | cons field fields ih => rw [mapNumbersFields, List.map_cons, ih]

/-- A field is found whatever is done to the numbers. -/
theorem field?_mapNumbers (f : Double → Double) (json : Json) (name : String) :
    (json.mapNumbers f).field? name = (json.field? name).map (mapNumbers f) := by
  cases json with
  | record fields =>
    rw [mapNumbers, field?, field?, mapNumbersFields_eq_map, List.find?_map, Option.map_map,
      Option.map_map]
    rfl
  | null => rfl
  | bool b => rfl
  | number x => rfl
  | text s => rfl
  | list items => rfl

/-- So is a list of values, each with that done to its numbers. -/
theorem field?_mapNumbers_list (f : Double → Double) {json : Json} {name : String}
    {items : List Json} (h : json.field? name = some (.list items)) :
    (json.mapNumbers f).field? name = some (.list (items.map (mapNumbers f))) := by
  rw [field?_mapNumbers, h, Option.map_some, mapNumbers, mapNumbersItems_eq_map]

mutual

/-- Where all numbers are finite, printing and reading a value takes the signs off its zeros and
changes nothing else. -/
theorem readBack_eq_mapNumbers (json : Json) (h : json.NumbersFinite) :
    json.readBack = json.mapNumbers Double.unsignedZero := by
  cases json with
  | null => rfl
  | bool b => rfl
  | number x =>
    cases h with
    | number hfinite => exact readBack_number hfinite
  | text s => rfl
  | list items =>
    cases h with
    | list hitems => rw [readBack, mapNumbers, readBackItems_eq_mapNumbersItems items hitems]
  | record fields =>
    cases h with
    | record hfields => rw [readBack, mapNumbers, readBackFields_eq_mapNumbersFields fields hfields]

theorem readBackItems_eq_mapNumbersItems (items : List Json)
    (h : ∀ item ∈ items, item.NumbersFinite) :
    readBackItems items = mapNumbersItems Double.unsignedZero items := by
  cases items with
  | nil => rfl
  | cons item items =>
    rw [readBackItems, mapNumbersItems, readBack_eq_mapNumbers item (h item List.mem_cons_self),
      readBackItems_eq_mapNumbersItems items
        fun other hother => h other (List.mem_cons_of_mem _ hother)]

theorem readBackFields_eq_mapNumbersFields (fields : List (String × Json))
    (h : ∀ field ∈ fields, field.2.NumbersFinite) :
    readBackFields fields = mapNumbersFields Double.unsignedZero fields := by
  cases fields with
  | nil => rfl
  | cons field fields =>
    obtain ⟨name, value⟩ := field
    rw [readBackFields, mapNumbersFields, readBack_eq_mapNumbers value (h _ List.mem_cons_self),
      readBackFields_eq_mapNumbersFields fields
        fun other hother => h other (List.mem_cons_of_mem _ hother)]

end

end Json

/-! ## Counts -/

/-- The natural that a double is, if it is one. -/
def Double.nat? : Double → Option Nat
  | .finite false size =>
    if size.units % unitsPerOne = 0 then some (size.units / unitsPerOne) else none
  | _ => none

/-- The natural that a value is, if it is one. -/
def Json.count? : Json → Option Nat
  | .number x => x.nat?
  | _ => none

namespace Double
variable {n : Nat}

theorem nat?_ofNat (h : n ≤ 2 ^ 53) : (ofNat n).nat? = some n := by
  obtain ⟨size, hsize, heq⟩ := exists_ofNat_eq h
  rw [heq, nat?, hsize, Nat.mul_mod_left, if_pos rfl, Nat.mul_div_cancel _ unitsPerOne_pos]

theorem isFinite_ofNat (h : n ≤ 2 ^ 53) : (ofNat n).isFinite = true := by
  obtain ⟨size, -, heq⟩ := exists_ofNat_eq h
  rw [heq]
  rfl

theorem unsignedZero_ofNat (n : Nat) : (ofNat n).unsignedZero = ofNat n := by
  unfold unsignedZero
  split
  · rename_i hzero
    rw [isZero_ofNat.mp hzero]
    exact ofNat_zero.symm
  · rfl

end Double

/-- A field with a count that is not too large keeps it when the signs of zeros are taken off. -/
theorem Json.count?_field?_mapNumbers {json : Json} {name : String} {n : Nat}
    (hfield : json.field? name = some (.ofNat n)) (h : n ≤ 2 ^ 53) :
    ((json.mapNumbers Double.unsignedZero).field? name).bind count? = some n := by
  rw [field?_mapNumbers, hfield, Option.map_some, Option.bind_some, ofNat, mapNumbers,
    Double.unsignedZero_ofNat, count?, Double.nat?_ofNat h]

/-! ## The size of a program -/

namespace Technique
variable (technique : Technique) (total : Double)

theorem length_moves (path : Path) : (technique.moves total path).length = path.length - 1 := by
  unfold moves
  split
  · rw [List.length_zipWith, List.length_tail, length_extrusionTotals, Nat.min_self]
  · rw [List.length_map, List.length_tail]

/-- Besides a move to each point, the block of a path has two comments and two moves above it. -/
theorem length_block {path : Path} (h : path ≠ []) :
    (technique.block total path).length = path.length + 4 := by
  cases path with
  | nil => exact absurd rfl h
  | cons start rest =>
    simp only [block, approach, lift, List.length_append, List.length_cons, List.length_nil,
      length_moves]
    omega

theorem length_motionFrom {paths : List Path} (h : ∀ path ∈ paths, path ≠ []) :
    (technique.motionFrom total paths).length = paths.flatten.length + 4 * paths.length := by
  induction paths generalizing total with
  | nil => rfl
  | cons path paths ih =>
    rw [motionFrom, List.length_append, length_block technique total (h path List.mem_cons_self),
      ih _ fun other hother => h other (List.mem_cons_of_mem _ hother), List.flatten_cons,
      List.length_append, List.length_cons]
    omega

end Technique

/-- A program has more lines than there are points and paths. -/
theorem Profile.length_lines_compilation (profile : Profile) (ownHeader : List String)
    {paths : List Path} (h : ∀ path ∈ paths, path ≠ []) :
    paths.flatten.length + 4 * paths.length ≤
      (profile.compilation ownHeader paths).lines.length := by
  have hbody : (motion profile.technique paths).length =
      paths.flatten.length + 4 * paths.length :=
    profile.technique.length_motionFrom 0 h
  rw [compilation, program, Technique.assemble, List.length_map, List.length_append,
    List.length_append, hbody]
  omega

/-! ## Numbers in a manifest -/

theorem Point.IsRounded.isFinite {point : Point} (h : point.IsRounded) : point.IsFinite :=
  ⟨h.x.isFinite, h.y.isFinite, h.z.isFinite⟩

/-- The numbers of a rounded point have no sign to lose. -/
theorem Point.mapNumbers_toJson {point : Point} (h : point.IsRounded) :
    point.toJson.mapNumbers Double.unsignedZero = point.toJson := by
  simp only [toJson, Json.mapNumbers, Json.mapNumbersItems, h.x.unsignedZero_eq,
    h.y.unsignedZero_eq, h.z.unsignedZero_eq]

namespace Json.NumbersFinite

theorem point {point : Point} (h : point.IsFinite) : point.toJson.NumbersFinite := by
  refine .list fun item hitem => ?_
  simp only [List.mem_cons, List.not_mem_nil, or_false] at hitem
  rcases hitem with rfl | rfl | rfl
  · exact .number h.x
  · exact .number h.y
  · exact .number h.z

theorem path {path : Path} (h : ∀ point ∈ path, point.IsFinite) : path.toJson.NumbersFinite := by
  refine .list fun item hitem => ?_
  obtain ⟨source, hsource, rfl⟩ := List.mem_map.mp hitem
  exact .point (h source hsource)

theorem bed {bed : Bed} (h : bed.IsFinite) : bed.toJson.NumbersFinite := by
  cases bed with
  | rectangular maxX maxY maxZ =>
    obtain ⟨hx, hy, hz⟩ := h
    refine .record fun field hfield => ?_
    simp only [List.mem_cons, List.not_mem_nil, or_false] at hfield
    rcases hfield with rfl | rfl | rfl | rfl
    · exact .text _
    · exact .number hx
    · exact .number hy
    · exact .number hz
  | cylindrical radius maxZ =>
    obtain ⟨hradius, hz⟩ := h
    refine .record fun field hfield => ?_
    simp only [List.mem_cons, List.not_mem_nil, or_false] at hfield
    rcases hfield with rfl | rfl | rfl
    · exact .text _
    · exact .number hradius
    · exact .number hz

theorem ofNat {n : Nat} (h : n ≤ 2 ^ 53) : (Json.ofNat n).NumbersFinite :=
  .number (Double.isFinite_ofNat h)

theorem warning {warning : PointWarning} (h : warning.point.IsFinite) :
    warning.toJson.NumbersFinite := by
  refine .record fun field hfield => ?_
  simp only [List.mem_cons, List.not_mem_nil, or_false] at hfield
  rcases hfield with rfl | rfl
  · exact .text _
  · exact .point h

end Json.NumbersFinite

namespace Json.NamesDiffer

theorem warning (warning : PointWarning) : warning.toJson.NamesDiffer := by
  have hnames : ["text", "point"].Nodup := by decide
  refine .record hnames fun field hfield => ?_
  simp only [List.mem_cons, List.not_mem_nil, or_false] at hfield
  rcases hfield with rfl | rfl
  · exact .text _
  · exact .point warning.point

theorem manifest (compilation : Compilation) : compilation.manifest.NamesDiffer := by
  have hnames : ["status", "mode", "bed", "lineCount", "pathCount", "violationCount", "badPoints",
    "badSegments", "warnings"].Nodup := by decide
  refine .record hnames fun field hfield => ?_
  simp only [List.mem_cons, List.not_mem_nil, or_false] at hfield
  rcases hfield with rfl | rfl | rfl | rfl | rfl | rfl | rfl | rfl | rfl
  · exact .text _
  · exact .text _
  · exact .bed compilation.profile.bed
  · exact .number _
  · exact .number _
  · exact .number _
  · refine .list fun item hitem => ?_
    obtain ⟨point, -, rfl⟩ := List.mem_map.mp hitem
    exact .point point
  · refine .list fun item hitem => ?_
    obtain ⟨segment, -, rfl⟩ := List.mem_map.mp hitem
    exact .path [segment.1, segment.2]
  · refine .list fun item hitem => ?_
    obtain ⟨warning, -, rfl⟩ := List.mem_map.mp hitem
    exact .warning warning

end Json.NamesDiffer

/-! ## What is read -/

/-- A compilation of rounded paths for a finite bed, with diagnostics about points of the paths, and
with a program that has a line for each path and for each point out of reach. -/
structure Compilation.IsSound (compilation : Compilation) : Prop where
  bed : compilation.profile.bed.IsFinite
  isRounded : ∀ path ∈ compilation.paths, path.IsRounded
  badPoints : ∀ point ∈ compilation.diagnostics.badPoints, ∃ path ∈ compilation.paths, point ∈ path
  badSegments : ∀ segment ∈ compilation.diagnostics.badSegments,
    ∃ path ∈ compilation.paths, segment.1 ∈ path ∧ segment.2 ∈ path
  pathCount : compilation.paths.length ≤ compilation.lines.length
  violationCount : compilation.diagnostics.violationCount ≤ compilation.lines.length

/-- What a manifest tells about a compilation. -/
structure Compilation.ToldBy (compilation : Compilation) (manifest : Json) : Prop where
  lineCount : (manifest.field? "lineCount").bind Json.count? = some compilation.lines.length
  pathCount : (manifest.field? "pathCount").bind Json.count? = some compilation.paths.length
  violations : ∃ points warnings : List Json,
    manifest.field? "badPoints" = some (.list points) ∧
      manifest.field? "warnings" = some (.list warnings) ∧
      (manifest.field? "violationCount").bind Json.count? = some points.length ∧
      (manifest.field? "violationCount").bind Json.count? = some warnings.length ∧
      ∀ i : Nat, warnings[i]?.bind (·.field? "point") = points[i]?
  status_ok : manifest.field? "status" = some (.text statusOk) ↔
    (manifest.field? "violationCount").bind Json.count? = some 0
  badSegments : ∃ segments : List Json, manifest.field? "badSegments" = some (.list segments) ∧
    ∀ segment ∈ segments, ∃ path ∈ compilation.paths, ∃ a ∈ path, ∃ b ∈ path,
      segment = .list [a.toJson, b.toJson]

/-- What compiling returns is sound. -/
theorem isSound_of_compile {geometry : List Value} {value : Value} {ownHeader : List String}
    {compilation : Compilation}
    (h : (compile geometry value ownHeader).result = .ok compilation) : compilation.IsSound := by
  obtain ⟨profile, hprofile, rfl, -⟩ := eq_compilation_of_compile h
  have hrounded : ∀ path ∈ Path.ofValues geometry, path.IsRounded :=
    fun path hpath => Path.isRounded_of_mem_ofValues hpath
  have hlines := profile.length_lines_compilation ownHeader
    fun path hpath => (hrounded path hpath).ne_nil
  have hpoints := profile.bed.badPoints_diagnose (Path.ofValues geometry)
  refine ⟨(Profile.yields_ofValue value profile hprofile).bed, hrounded, ?_, ?_, ?_, ?_⟩
  · intro point hpoint
    change point ∈ (profile.bed.diagnose (Path.ofValues geometry)).badPoints at hpoint
    rw [hpoints] at hpoint
    exact List.mem_flatten.mp (List.mem_filter.mp hpoint).1
  · intro segment hsegment
    obtain ⟨path, hpath, i, hfirst, hsecond, -⟩ := Bed.mem_badSegments_diagnose.mp hsegment
    exact ⟨path, hpath, List.mem_of_getElem? hfirst, List.mem_of_getElem? hsecond⟩
  · change (Path.ofValues geometry).length ≤ _
    omega
  · have hcount : (profile.bed.diagnose (Path.ofValues geometry)).violationCount ≤
        (Path.ofValues geometry).flatten.length := by
      rw [Diagnostics.violationCount, Bed.warnings_diagnose]
      exact List.length_filterMap_le _ _
    change (profile.bed.diagnose (Path.ofValues geometry)).violationCount ≤ _
    omega

namespace Compilation
variable {compilation : Compilation}

/-- The points of the paths of a sound compilation have been rounded. -/
theorem IsSound.isRounded_of_mem (h : compilation.IsSound) {path : Path}
    (hpath : path ∈ compilation.paths) {point : Point} (hpoint : point ∈ path) :
    point.IsRounded :=
  (h.isRounded path hpath).isRounded point hpoint

/-- Every number of the manifest is finite. -/
theorem IsSound.numbersFinite_manifest (h : compilation.IsSound)
    (hlines : compilation.lines.length ≤ 2 ^ 53) : compilation.manifest.NumbersFinite := by
  have hbadPoint : ∀ point ∈ compilation.diagnostics.badPoints, point.IsFinite := by
    intro point hpoint
    obtain ⟨path, hpath, hmem⟩ := h.badPoints point hpoint
    exact (h.isRounded_of_mem hpath hmem).isFinite
  refine .record fun field hfield => ?_
  simp only [List.mem_cons, List.not_mem_nil, or_false] at hfield
  rcases hfield with rfl | rfl | rfl | rfl | rfl | rfl | rfl | rfl | rfl
  · exact .text _
  · exact .text _
  · exact .bed h.bed
  · exact .ofNat hlines
  · exact .ofNat (h.pathCount.trans hlines)
  · exact .ofNat (h.violationCount.trans hlines)
  · refine .list fun item hitem => ?_
    obtain ⟨point, hpoint, rfl⟩ := List.mem_map.mp hitem
    exact .point (hbadPoint point hpoint)
  · refine .list fun item hitem => ?_
    obtain ⟨segment, hsegment, rfl⟩ := List.mem_map.mp hitem
    obtain ⟨path, hpath, hfirst, hsecond⟩ := h.badSegments segment hsegment
    refine .path fun point hpoint => ?_
    simp only [List.mem_cons, List.not_mem_nil, or_false] at hpoint
    rcases hpoint with rfl | rfl
    · exact (h.isRounded_of_mem hpath hfirst).isFinite
    · exact (h.isRounded_of_mem hpath hsecond).isFinite
  · refine .list fun item hitem => ?_
    obtain ⟨warning, hwarning, rfl⟩ := List.mem_map.mp hitem
    exact .warning (hbadPoint _ (List.mem_map_of_mem hwarning))

/-- The bad segments keep their points when the signs of zeros are taken off. -/
theorem IsSound.mapNumbers_segment (h : compilation.IsSound) {segment : Segment}
    (hsegment : segment ∈ compilation.diagnostics.badSegments) :
    ∃ path ∈ compilation.paths, ∃ a ∈ path, ∃ b ∈ path,
      segment.toJson.mapNumbers Double.unsignedZero = .list [a.toJson, b.toJson] := by
  obtain ⟨path, hpath, hfirst, hsecond⟩ := h.badSegments segment hsegment
  refine ⟨path, hpath, segment.1, hfirst, segment.2, hsecond, ?_⟩
  rw [Segment.toJson, Path.toJson, List.map_cons, List.map_cons, List.map_nil, Json.mapNumbers,
    Json.mapNumbersItems, Json.mapNumbersItems, Json.mapNumbersItems,
    Point.mapNumbers_toJson (h.isRounded_of_mem hpath hfirst),
    Point.mapNumbers_toJson (h.isRounded_of_mem hpath hsecond)]

/-- The manifest without the signs of zeros tells about the compilation. -/
theorem IsSound.toldBy (h : compilation.IsSound) (hlines : compilation.lines.length ≤ 2 ^ 53) :
    compilation.ToldBy (compilation.manifest.mapNumbers Double.unsignedZero) := by
  have hviolations : ((compilation.manifest.mapNumbers Double.unsignedZero).field?
      "violationCount").bind Json.count? = some compilation.diagnostics.violationCount :=
    Json.count?_field?_mapNumbers rfl (h.violationCount.trans hlines)
  refine ⟨Json.count?_field?_mapNumbers rfl hlines,
    Json.count?_field?_mapNumbers rfl (h.pathCount.trans hlines), ?_, ?_, ?_⟩
  · refine ⟨_, _, Json.field?_mapNumbers_list Double.unsignedZero rfl,
      Json.field?_mapNumbers_list Double.unsignedZero rfl, ?_, ?_, fun i => ?_⟩
    · rw [hviolations, List.length_map, List.length_map, Diagnostics.badPoints, List.length_map,
        Diagnostics.violationCount]
    · rw [hviolations, List.length_map, List.length_map, Diagnostics.violationCount]
    · -- a warning is told of by its text and its point
      rw [Diagnostics.badPoints]
      simp only [List.getElem?_map, Option.map_map]
      cases compilation.diagnostics.warnings[i]? with
      | none => rfl
      | some warning => exact Json.field?_mapNumbers Double.unsignedZero warning.toJson "point"
  · have hstatus : compilation.manifest.field? "status" = some (.text compilation.status) := rfl
    rw [hviolations, Json.field?_mapNumbers, hstatus, Option.map_some, Json.mapNumbers,
      Option.some_inj, Option.some_inj, Json.text.injEq, status,
      Diagnostics.status_eq_statusOk_iff]
  · refine ⟨_, Json.field?_mapNumbers_list Double.unsignedZero rfl, fun item hitem => ?_⟩
    obtain ⟨source, hsource, rfl⟩ := List.mem_map.mp hitem
    obtain ⟨segment, hsegment, rfl⟩ := List.mem_map.mp hsource
    exact h.mapNumbers_segment hsegment

/-- **A manifest is read back and tells about its compilation.**  All that the text loses is the
sign of a zero.  Its counts are doubles, which go from one natural to the next up to `2 ^ 53`,
further than any program in a memory is long. -/
theorem ofText?_manifestText {geometry : List Value} {value : Value} {ownHeader : List String}
    (h : (compile geometry value ownHeader).result = .ok compilation)
    (hlines : compilation.lines.length ≤ 2 ^ 53) :
    Json.ofText? compilation.manifestText =
        some (compilation.manifest.mapNumbers Double.unsignedZero) ∧
      compilation.ToldBy (compilation.manifest.mapNumbers Double.unsignedZero) := by
  have hsound := isSound_of_compile h
  refine ⟨?_, hsound.toldBy hlines⟩
  rw [manifestText, Json.toIndentedText, Json.ofText?_toChars (some 0) (.manifest compilation),
    Json.readBack_eq_mapNumbers _ (hsound.numbersFinite_manifest hlines)]

/-- The job has a point out of reach and a segment that leads from it. -/
theorem ofText?_manifestText_job :
    (jobProfile.compilation [] [jobPath]).lines.length = 13 ∧
      Json.ofText? (jobProfile.compilation [] [jobPath]).manifestText =
        some ((jobProfile.compilation [] [jobPath]).manifest.mapNumbers Double.unsignedZero) ∧
      (jobProfile.compilation [] [jobPath]).ToldBy
        ((jobProfile.compilation [] [jobPath]).manifest.mapNumbers Double.unsignedZero) ∧
      (jobProfile.compilation [] [jobPath]).diagnostics.badPoints = jobPath.take 1 ∧
      (jobProfile.compilation [] [jobPath]).diagnostics.badSegments = jobPath.segments := by
  have hlength : (jobProfile.compilation [] [jobPath]).lines.length = 13 := by
    have hprogram : (jobProfile.program [] [jobPath]).length = 13 := rfl
    rw [Profile.compilation, List.length_map, hprogram]
  have hlines : (jobProfile.compilation [] [jobPath]).lines.length ≤ 2 ^ 53 := by
    rw [hlength]
    decide
  obtain ⟨hread, htold⟩ := ofText?_manifestText compile_job hlines
  exact ⟨hlength, hread, htold, by decide +kernel, by decide +kernel⟩

end Compilation
end Toolpath
