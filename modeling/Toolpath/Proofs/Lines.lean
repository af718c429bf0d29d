import Toolpath.Instruction.Printer
import Toolpath.Program

/-! # The lines of a program

Writing an instruction stops at a field that is not finite, and nothing else stops it as long as the
places that its fields ask for can be written.  All fields of a program are such fields
(`Technique.placesFit_assemble`).  So a program is either written in full, line by line
(`Instruction.line`), or writing it fails with the first field that is not finite, in the order of
the program (`Instruction.writeAll_eq`).
-/
namespace Toolpath

/-- A traversal that stops at the first bad part of an item, where the items without a bad part go
through. -/
theorem mapM_eq_of_find? {α β γ ε : Type} {write : α → Except ε β} {parts : α → List γ}
    {bad : γ → Bool} {fault : γ → ε} {line : α → β} {items : List α}
    (h : ∀ item ∈ items, write item =
      ((parts item).find? bad).elim (.ok (line item)) fun part => .error (fault part)) :
    items.mapM write =
      ((items.flatMap parts).find? bad).elim (.ok (items.map line))
        fun part => .error (fault part) := by
  induction items with
  | nil => rfl
  | cons item items ih =>
    have hitem := h item List.mem_cons_self
    have hitems := ih fun other hother => h other (List.mem_cons_of_mem _ hother)
    rw [List.mapM_cons, hitem, hitems, List.flatMap_cons, List.find?_append]
    cases (parts item).find? bad with
    | some part => rfl
    | none =>
      rw [Option.none_or]
      cases (items.flatMap parts).find? bad <;> rfl

namespace Field

/-- The places that a field asks for can be written. -/
def PlacesFit (field : Field) : Prop :=
  ∀ places ∈ field.places.value?, places.asPlaces?.isSome = true

/-- The number of a field as it is written. -/
def number (field : Field) : String :=
  match field.places.value?.bind Double.asPlaces? with
  | none => field.value.plainText
  | some places => field.value.fixedText places

/-- A field as it is written. -/
def text (field : Field) : String := field.letter.char.toString ++ field.number

/-- Neither NaN nor an infinity is in the field. -/
def isFinite (field : Field) : Bool := field.value.isFinite

/-- What is said of a field that is not finite. -/
def fault (field : Field) : Fault := .fieldNotFinite field.letter field.value

theorem write_eq {field : Field} (h : field.PlacesFit) :
    field.write = if field.isFinite then .ok field.text else .error field.fault := by
  rw [write, text, number, isFinite, fault]
  split
  · cases hplaces : field.places.value? with
    | none => rfl
    | some places =>
      obtain ⟨count, hcount⟩ := Option.isSome_iff_exists.mp (h places hplaces)
      rw [Double.withPlaces?]
      simp only [hcount, Option.bind_some]
      rfl
  · rfl

theorem placesFit_plain (letter : Letter) (value : Double) : (plain letter value).PlacesFit := by
  intro places hplaces
  cases hplaces

theorem placesFit_extrusion (total : Double) : (extrusion total).PlacesFit := by
  intro places hplaces
  rw [show places = .ofNat extrusionPlaces from (Option.some.inj hplaces).symm]
  decide +kernel

end Field

namespace Instruction

/-- The line of an instruction whose fields are finite. -/
def line : Instruction → String
  | comment text => commentMark ++ text
  | verbatim line => line
  | command code fields note =>
    String.intercalate " " (code :: fields.map Field.text) ++ noteSuffix note.value?

theorem line_linearMove (target : MoveTarget) (note : Option String) :
    (linearMove target note).line =
      String.intercalate " " ("G1" :: target.fields.map Field.text) ++ noteSuffix note := by
  cases note <;> rfl

/-- The places that the fields of an instruction ask for can be written. -/
def PlacesFit (instruction : Instruction) : Prop := ∀ field ∈ instruction.fields, field.PlacesFit

/-- The first field that is not finite. -/
def firstNotFinite? (instructions : List Instruction) : Option Field :=
  (instructions.flatMap fields).find? fun field => !field.isFinite

theorem isFinite_of_firstNotFinite?_eq_none {instructions : List Instruction}
    (h : firstNotFinite? instructions = none) {instruction : Instruction}
    (hinstruction : instruction ∈ instructions) {field : Field}
    (hfield : field ∈ instruction.fields) : field.isFinite = true := by
  have hgood := List.find?_eq_none.mp h field (List.mem_flatMap.mpr ⟨_, hinstruction, hfield⟩)
  rwa [Bool.not_eq_true, Bool.not_eq_false'] at hgood

theorem mapM_write_fields {fields : List Field} (h : ∀ field ∈ fields, field.PlacesFit) :
    fields.mapM Field.write =
      (fields.find? fun field => !field.isFinite).elim (.ok (fields.map Field.text))
        fun field => .error field.fault := by
  have hparts : ∀ field ∈ fields, field.write =
      ([field].find? fun field => !field.isFinite).elim (.ok field.text)
        fun field => .error field.fault := by
    intro field hfield
    rw [Field.write_eq (h field hfield), List.find?_singleton]
    cases field.isFinite <;> rfl
  rw [mapM_eq_of_find? hparts, List.flatMap_singleton']

theorem write_eq {instruction : Instruction} (h : instruction.PlacesFit) :
    instruction.write =
      (instruction.fields.find? fun field => !field.isFinite).elim (.ok instruction.line)
        fun field => .error field.fault := by
  cases instruction with
  | comment text => rfl
  | verbatim line => rfl
  | command code fields note =>
    have hfields : ∀ field ∈ fields, field.PlacesFit := h
    rw [write, mapM_write_fields hfields, Instruction.fields]
    cases fields.find? fun field => !field.isFinite <;> rfl

/-- **How writing a program ends.**  Either every line is written, or the first field that is not
finite is reported. -/
theorem writeAll_eq {instructions : List Instruction}
    (h : ∀ instruction ∈ instructions, instruction.PlacesFit) :
    writeAll instructions =
      (firstNotFinite? instructions).elim (.ok (instructions.map line))
        fun field => .error field.fault := by
  rw [writeAll, mapM_eq_of_find? fun instruction hi => write_eq (h instruction hi)]
  rfl

end Instruction

/-! ## The fields of a program -/

theorem MoveTarget.mem_fields_iff {target : MoveTarget} {field : Field} :
    field ∈ target.fields ↔
      (∃ x, target.x = some x ∧ .plain .x x = field) ∨
      (∃ y, target.y = some y ∧ .plain .y y = field) ∨
      (∃ z, target.z = some z ∧ .plain .z z = field) ∨
      (∃ total, target.extrusion = some total ∧ .extrusion total = field) ∨
      ∃ rate, target.feedRate = some rate ∧ .plain .f rate = field := by
  simp only [fields, List.mem_append, Option.mem_toList, Option.map_eq_some_iff, or_assoc]

theorem Instruction.placesFit_linearMove (target : MoveTarget) (note : Option String) :
    (linearMove target note).PlacesFit := by
  intro field hfield
  rcases MoveTarget.mem_fields_iff.mp hfield with
    ⟨x, -, rfl⟩ | ⟨y, -, rfl⟩ | ⟨z, -, rfl⟩ | ⟨total, -, rfl⟩ | ⟨rate, -, rfl⟩
  · exact Field.placesFit_plain .x x
  · exact Field.placesFit_plain .y y
  · exact Field.placesFit_plain .z z
  · exact Field.placesFit_extrusion total
  · exact Field.placesFit_plain .f rate

/-- An instruction that is a comment or a move. -/
def Instruction.IsMotion (instruction : Instruction) : Prop :=
  (∃ text, instruction = comment text) ∨ ∃ target note, instruction = linearMove target note

namespace Technique

/-- The points of a path after the first, each with the total that its move carries, if any. -/
def targets (technique : Technique) (total : Double) (path : Path) :
    List (Point × Option Double) :=
  match technique.extrusionMultiplier? with
  | some multiplier => path.tail.zip ((extrusionTotals multiplier total path).map some)
  | none => path.tail.map fun point => (point, none)

/-- The moves along a path go to its points one after another, whether or not they feed. -/
theorem moves_eq_map (technique : Technique) (total : Double) (path : Path) :
    technique.moves total path = (technique.targets total path).map fun target =>
      .linearMove (technique.moveTo target.1 target.2) none := by
  unfold moves targets
  cases technique.extrusionMultiplier? with
  | none =>
    dsimp only
    rw [List.map_map]
    rfl
  | some multiplier =>
    dsimp only
    rw [List.zip_map_right, List.map_map]
    exact List.map_uncurry_zip_eq_zipWith.symm

variable {technique : Technique} {total : Double} {path : Path} {instruction : Instruction}

theorem map_fst_targets : (technique.targets total path).map Prod.fst = path.tail := by
  unfold targets
  split
  · exact List.map_fst_zip (by simp)
  · rw [List.map_map]
    exact List.map_id _

/-- The moves carry the totals of the path, if the technique counts what it feeds. -/
theorem some_mem_map_snd_targets_iff {fed : Double} :
    some fed ∈ (technique.targets total path).map Prod.snd ↔
      ∃ multiplier, technique.extrusionMultiplier? = some multiplier ∧
        fed ∈ extrusionTotals multiplier total path := by
  unfold targets
  split
  · rename_i multiplier hmultiplier
    rw [List.map_snd_zip (by simp), hmultiplier]
    simp
  · rename_i hnone
    rw [hnone]
    constructor
    · intro hfed
      obtain ⟨target, htarget, hsome⟩ := List.mem_map.mp hfed
      obtain ⟨point, -, rfl⟩ := List.mem_map.mp htarget
      cases hsome
    · rintro ⟨multiplier, hsome, -⟩
      cases hsome

theorem isMotion_of_mem_moves (h : instruction ∈ technique.moves total path) :
    instruction.IsMotion := by
  rw [moves_eq_map] at h
  obtain ⟨target, -, rfl⟩ := List.mem_map.mp h
  exact .inr ⟨_, _, rfl⟩

theorem isMotion_of_mem_block (h : instruction ∈ technique.block total path) :
    instruction.IsMotion := by
  cases path with
  | nil => cases h
  | cons start rest =>
    rw [block, List.mem_append, List.mem_append] at h
    rcases h with (h | h) | h
    · simp only [approach, List.mem_cons, List.not_mem_nil, or_false] at h
      rcases h with rfl | rfl | rfl
      · exact .inl ⟨_, rfl⟩
      · exact .inr ⟨_, _, rfl⟩
      · exact .inr ⟨_, _, rfl⟩
    · exact isMotion_of_mem_moves h
    · simp only [lift, List.mem_cons, List.not_mem_nil, or_false] at h
      rcases h with rfl | rfl
      · exact .inl ⟨_, rfl⟩
      · exact .inr ⟨_, _, rfl⟩

theorem isMotion_of_mem_motionFrom {paths : List Path}
    (h : instruction ∈ technique.motionFrom total paths) : instruction.IsMotion := by
  induction paths generalizing total with
  | nil => cases h
  | cons path rest ih =>
    rw [motionFrom, List.mem_append] at h
    rcases h with h | h
    · exact isMotion_of_mem_block h
    · exact ih h

end Technique

theorem Instruction.IsMotion.placesFit {instruction : Instruction} (h : instruction.IsMotion) :
    instruction.PlacesFit := by
  rcases h with ⟨text, rfl⟩ | ⟨target, note, rfl⟩
  · exact fun field hfield => by cases hfield
  · exact placesFit_linearMove target note

/-- The temperatures that the heaters are set to. -/
def Technique.temperatures : Technique → List Double
  | thermoplastic settings => [settings.nozzleTemp, settings.bedTemp]
  | _ => []

/-- A field of the header sets a heater or resets the extrusion; all are plain. -/
theorem Technique.mem_fields_headerOr {technique : Technique} {ownHeader : List String}
    {field : Field} (h : field ∈ (technique.headerOr ownHeader).flatMap Instruction.fields) :
    ∃ letter value, field = .plain letter value ∧ (value ∈ technique.temperatures ∨ value = 0) := by
  unfold headerOr at h
  split at h
  · cases technique with
    | thermoplastic settings =>
      simp only [header, heatersOn, heaterCommands, List.flatMap_append, List.flatMap_cons,
        List.flatMap_nil, Instruction.fields, List.mem_append, List.mem_cons, List.not_mem_nil,
        or_false, List.append_nil, List.nil_append] at h
      rcases h with (rfl | rfl) | rfl
      · exact ⟨_, _, rfl, .inl List.mem_cons_self⟩
      · exact ⟨_, _, rfl, .inl (List.mem_cons_of_mem _ List.mem_cons_self)⟩
      · exact ⟨_, _, rfl, .inr rfl⟩
    | paste settings => exact ⟨_, _, List.mem_singleton.mp h, .inr rfl⟩
    | motion settings => exact ⟨_, _, List.mem_singleton.mp h, .inr rfl⟩
  · obtain ⟨instruction, hinstruction, hfield⟩ := List.mem_flatMap.mp h
    obtain ⟨text, -, rfl⟩ := List.mem_map.mp hinstruction
    cases hfield

/-- The fields of the footer are plain zeros. -/
theorem Technique.mem_fields_footer {technique : Technique} {field : Field}
    (h : field ∈ technique.footer.flatMap Instruction.fields) :
    ∃ letter, field = .plain letter 0 := by
  cases technique with
  | thermoplastic settings =>
    simp only [footer, heatersOff, heaterCommands, List.flatMap_append, List.flatMap_cons,
      List.flatMap_nil, Instruction.fields, List.mem_append, List.mem_cons, List.not_mem_nil,
      or_false, List.append_nil, List.nil_append] at h
    rcases h with (rfl | rfl) | rfl
    · exact ⟨_, rfl⟩
    · exact ⟨_, rfl⟩
    · exact ⟨_, rfl⟩
  | paste settings => exact ⟨_, List.mem_singleton.mp h⟩
  | motion settings => exact ⟨_, List.mem_singleton.mp h⟩

/-- **Every field of a program can be written if it is finite.** -/
theorem Technique.placesFit_assemble (technique : Technique) (ownHeader : List String)
    (paths : List Path) {instruction : Instruction}
    (h : instruction ∈ technique.assemble ownHeader (Toolpath.motion technique paths)) :
    instruction.PlacesFit := by
  rw [assemble, List.mem_append, List.mem_append] at h
  rcases h with (h | h) | h
  · intro field hfield
    obtain ⟨letter, value, rfl, -⟩ := mem_fields_headerOr (List.mem_flatMap.mpr ⟨_, h, hfield⟩)
    exact Field.placesFit_plain letter value
  · exact (isMotion_of_mem_motionFrom h).placesFit
  · intro field hfield
    obtain ⟨letter, rfl⟩ := mem_fields_footer (List.mem_flatMap.mpr ⟨_, h, hfield⟩)
    exact Field.placesFit_plain letter 0

end Toolpath
