import Toolpath.Proofs.PlainNumbers
import Toolpath.Proofs.Replay

/-! # The form of generated lines

A line that the compiler writes itself is a comment with a fixed text, or a code with lettered
numbers in plain decimal form and perhaps a fixed note (`GeneratedLine`).  That holds of a line
exactly when no number in it has reached `10 ^ 21`, where a power of ten is written
(`Instruction.IsGenerated.generatedLine_iff`), and so for whole programs
(`generatedLine_iff_of_compile`).
-/
namespace Toolpath

/-! ## Lines -/

/-- The code of a move in a straight line. -/
def moveCode : String := "G1"

/-- The codes of the commands in a program. -/
def commandCodes : List String := [moveCode, "G28", "G92", "M84", "M104", "M107", "M140"]

/-- The comments in a program. -/
def commentTexts : List String := [programBanner, "Start path", "End path", "end of program"]

/-- The notes behind the commands of a program. -/
def noteTexts : List String :=
  ["home all axes", "set nozzle temperature", "set bed temperature", "reset extrusion",
    "move above start", "descend to start", "lift tool", "nozzle heater off", "bed heater off",
    "fans off", "home X", "disable motors"]

/-- A letter with a number in plain decimal form.  What a move feeds has four decimals; any other
number has at most six, with no zero at their end, and is no zero with a minus. -/
inductive FieldText (code : String) : List Char → Prop
  | extrusion {decimals number : List Char} (hcode : code = moveCode)
    (hlength : decimals.length = extrusionPlaces) (h : IsPlainDecimal decimals number) :
    FieldText code (Letter.e.char :: number)
  | plain {letter : Letter} {decimals number : List Char}
    (hletter : code = moveCode → letter ≠ .e) (hlength : decimals.length ≤ Double.plainPlaces)
    (hlast : decimals.getLast? ≠ some '0') (h : IsPlainDecimal decimals number)
    (hzero : number ≠ ['-', '0']) : FieldText code (letter.char :: number)

/-- A line of the compiler's own. -/
inductive GeneratedLine : List Char → Prop
  | comment {text : String} (h : text ∈ commentTexts) : GeneratedLine (';' :: ' ' :: text.toList)
  | command {code : String} {fields : List (List Char)} {behind : List Char}
    (hcode : code ∈ commandCodes) (hfields : ∀ field ∈ fields, FieldText code field)
    (hbehind : behind = [] ∨ ∃ note ∈ noteTexts, behind = ' ' :: ';' :: ' ' :: note.toList) :
    GeneratedLine (code.toList ++ fields.flatMap (' ' :: ·) ++ behind)

theorem FieldText.plus_notMem {code : String} {field : List Char} (h : FieldText code field) :
    '+' ∉ field := by
  intro hplus
  cases h with
  | extrusion _ _ h =>
    rcases List.mem_cons.mp hplus with heq | hplus
    · cases heq
    · exact h.plus_notMem hplus
  | @plain letter _ _ _ _ _ h _ =>
    rcases List.mem_cons.mp hplus with heq | hplus
    · revert heq
      cases letter <;> decide
    · exact h.plus_notMem hplus

theorem plus_notMem_of_mem_texts {text : String}
    (h : text ∈ commandCodes ++ commentTexts ++ noteTexts) : '+' ∉ text.toList := by
  have hall : (commandCodes ++ commentTexts ++ noteTexts).all
      (fun text => decide ('+' ∉ text.toList)) = true := rfl
  exact of_decide_eq_true (List.all_eq_true.mp hall text h)

/-- No power of ten is written in a line of the compiler's own. -/
theorem GeneratedLine.plus_notMem {line : List Char} (h : GeneratedLine line) : '+' ∉ line := by
  intro hplus
  cases h with
  | comment htext =>
    have hfree := plus_notMem_of_mem_texts
      (List.mem_append_left noteTexts (List.mem_append_right commandCodes htext))
    simp only [List.mem_cons] at hplus
    rcases hplus with heq | heq | hplus
    · cases heq
    · cases heq
    · exact hfree hplus
  | command hcode hfields hbehind =>
    rw [List.mem_append, List.mem_append] at hplus
    rcases hplus with (hplus | hplus) | hplus
    · exact plus_notMem_of_mem_texts
        (List.mem_append_left noteTexts (List.mem_append_left commentTexts hcode)) hplus
    · obtain ⟨field, hfield, hplus⟩ := List.mem_flatMap.mp hplus
      rcases List.mem_cons.mp hplus with heq | hplus
      · cases heq
      · exact (hfields field hfield).plus_notMem hplus
    · rcases hbehind with rfl | ⟨note, hnote, rfl⟩
      · cases hplus
      · simp only [List.mem_cons] at hplus
        rcases hplus with heq | heq | heq | hplus
        · cases heq
        · cases heq
        · cases heq
        · exact plus_notMem_of_mem_texts (List.mem_append_right _ hnote) hplus

/-! ## Fields -/

theorem Field.asPlaces?_extrusionPlaces :
    (Double.ofNat extrusionPlaces).asPlaces? = some extrusionPlaces := by decide +kernel

theorem Field.number_plain (letter : Letter) (value : Double) :
    (Field.plain letter value).number = value.plainText := rfl

theorem Field.number_extrusion (total : Double) :
    (Field.extrusion total).number = total.fixedText extrusionPlaces := by
  have hplaces : (Field.extrusion total).places.value?.bind Double.asPlaces? =
      some extrusionPlaces := asPlaces?_extrusionPlaces
  unfold Field.number
  rw [hplaces]
  rfl

/-- A finite number that is huge is written with a power of ten, however many places are asked
for. -/
theorem Field.plus_mem_text {field : Field} (hfinite : field.isFinite = true)
    (hhuge : field.value.isHuge = true) : '+' ∈ field.text.toList := by
  rw [Field.text, String.toList_append]
  refine List.mem_append_right _ ?_
  unfold Field.isFinite at hfinite
  unfold Field.number
  cases hvalue : field.value with
  | nan => rw [hvalue] at hfinite; cases hfinite
  | infinite negative => rw [hvalue] at hfinite; cases hfinite
  | finite negative size =>
    rw [hvalue] at hhuge
    have hplus := Double.plus_mem_shortestChars hhuge
    split
    · rw [Double.plainText, String.toList_ofList, Double.plainChars, if_pos hhuge]
      exact hplus
    · rw [Double.fixedText, String.toList_ofList, Double.fixedChars, if_pos hhuge]
      exact hplus

theorem Field.fieldText_plain {code : String} {letter : Letter} {value : Double}
    (hletter : code = moveCode → letter ≠ .e) (h : value.isHuge = false) :
    FieldText code (Field.plain letter value).text.toList := by
  obtain ⟨decimals, hlength, hlast, hplain, hzero⟩ := Double.isPlainDecimal_plainChars h
  rw [Field.toList_text, Field.number_plain, Double.plainText, String.toList_ofList]
  exact .plain hletter hlength hlast hplain hzero

theorem Field.fieldText_extrusion {total : Double} (h : total.isHuge = false) :
    FieldText moveCode (Field.extrusion total).text.toList := by
  obtain ⟨decimals, hlength, hplain⟩ := Double.isPlainDecimal_fixedChars h extrusionPlaces
  rw [Field.toList_text, Field.number_extrusion, Double.fixedText, String.toList_ofList]
  exact .extrusion rfl hlength hplain

/-! ## Instructions -/

namespace Instruction

/-- An instruction of the compiler's own: a comment, a setting with plain numbers, or a move. -/
inductive IsGenerated : Instruction → Prop
  | comment {text : String} (h : text ∈ commentTexts) : IsGenerated (.comment text)
  | setting {code note : String} {fields : List Field} (hcode : code ∈ commandCodes)
    (hne : code ≠ moveCode) (hfields : ∀ field ∈ fields, field = .plain field.letter field.value)
    (hnote : note ∈ noteTexts) : IsGenerated (.command code fields (.filled note))
  | move (target : MoveTarget) {note : Option String} (hnote : ∀ text ∈ note, text ∈ noteTexts) :
    IsGenerated (.linearMove target note)

/-- A code and its fields, a blank in front of each. -/
theorem toList_intercalate (code : String) (fields : List Field) :
    (String.intercalate " " (code :: fields.map Field.text)).toList =
      code.toList ++ (fields.map (·.text.toList)).flatMap (' ' :: ·) := by
  rw [String.toList_intercalate, List.map_cons, List.map_map]
  generalize code.toList = first
  induction fields generalizing first with
  | nil => simp
  | cons field fields ih =>
    rw [List.map_cons, List.intercalate_cons_cons, List.map_cons, List.flatMap_cons]
    have hrest := ih field.text.toList
    simp only [Function.comp_apply] at hrest ⊢
    rw [hrest, List.append_assoc]
    rfl

/-- A character that is in neither is not in a code and its fields, but for the blanks. -/
theorem notMem_intercalate {c : Char} {code : String} {fields : List Field} (hblank : c ≠ ' ')
    (hcode : c ∉ code.toList) (hfields : ∀ field ∈ fields, c ∉ field.text.toList) :
    c ∉ (String.intercalate " " (code :: fields.map Field.text)).toList := by
  intro hmem
  rw [toList_intercalate, List.mem_append] at hmem
  rcases hmem with hmem | hmem
  · exact hcode hmem
  · obtain ⟨chars, hchars, hmem⟩ := List.mem_flatMap.mp hmem
    obtain ⟨field, hfield, rfl⟩ := List.mem_map.mp hchars
    rcases List.mem_cons.mp hmem with heq | hmem
    · exact hblank heq
    · exact hfields field hfield hmem

theorem plus_mem_line {instruction : Instruction} {field : Field}
    (hfield : field ∈ instruction.fields) (hfinite : field.isFinite = true)
    (hhuge : field.value.isHuge = true) : '+' ∈ instruction.line.toList := by
  cases instruction with
  | comment text => cases hfield
  | verbatim line => cases hfield
  | command code fields note =>
    rw [line, String.toList_append, toList_intercalate]
    refine List.mem_append_left _ (List.mem_append_right _ (List.mem_flatMap.mpr ?_))
    exact ⟨field.text.toList, List.mem_map.mpr ⟨field, hfield, rfl⟩,
      List.mem_cons_of_mem _ (field.plus_mem_text hfinite hhuge)⟩

theorem noteSuffix_eq {note : Option String} (hnote : ∀ text ∈ note, text ∈ noteTexts) :
    (noteSuffix note).toList = [] ∨
      ∃ text ∈ noteTexts, (noteSuffix note).toList = ' ' :: ';' :: ' ' :: text.toList := by
  cases note with
  | none => exact .inl rfl
  | some note =>
    rw [noteSuffix]
    split
    · exact .inl rfl
    · exact .inr ⟨note, hnote note rfl, by rw [String.toList_append, String.toList_append]; rfl⟩

theorem generatedLine_command {code : String} {fields : List Field} {note : Slot String}
    (hcode : code ∈ commandCodes) (hfields : ∀ field ∈ fields, FieldText code field.text.toList)
    (hnote : ∀ text ∈ note.value?, text ∈ noteTexts) :
    GeneratedLine (command code fields note).line.toList := by
  rw [line, String.toList_append, toList_intercalate]
  refine .command hcode ?_ (noteSuffix_eq hnote)
  intro chars hchars
  obtain ⟨field, hfield, rfl⟩ := List.mem_map.mp hchars
  exact hfields field hfield

/-- **A line of the compiler's own is plain** exactly when no number in it is huge. -/
theorem IsGenerated.generatedLine_iff {instruction : Instruction} (h : instruction.IsGenerated)
    (hfinite : ∀ field ∈ instruction.fields, field.isFinite = true) :
    GeneratedLine instruction.line.toList ↔
      ∀ field ∈ instruction.fields, field.value.isHuge = false := by
  constructor
  · intro hline field hfield
    rw [← Bool.not_eq_true]
    intro hhuge
    exact hline.plus_notMem (plus_mem_line hfield (hfinite field hfield) hhuge)
  · intro hsmall
    cases h with
    | comment htext =>
      rw [line, String.toList_append]
      exact .comment htext
    | @setting code note fields hcode hne hfields hnote =>
      refine generatedLine_command hcode ?_ (fun text htext => ?_)
      · intro field hfield
        rw [hfields field hfield]
        exact Field.fieldText_plain (fun heq => absurd heq hne) (hsmall field hfield)
      · cases htext
        exact hnote
    | move target hnote =>
      refine generatedLine_command List.mem_cons_self ?_ (by rwa [Slot.value?_ofOption])
      intro field hfield
      have hvalue := hsmall field hfield
      rcases MoveTarget.mem_fields_iff.mp hfield with
        ⟨x, -, rfl⟩ | ⟨y, -, rfl⟩ | ⟨z, -, rfl⟩ | ⟨total, -, rfl⟩ | ⟨rate, -, rfl⟩
      · exact Field.fieldText_plain (fun _ => nofun) hvalue
      · exact Field.fieldText_plain (fun _ => nofun) hvalue
      · exact Field.fieldText_plain (fun _ => nofun) hvalue
      · exact Field.fieldText_extrusion hvalue
      · exact Field.fieldText_plain (fun _ => nofun) hvalue

theorem IsGenerated.bare {code note : String} (hcode : code ∈ commandCodes)
    (hne : code ≠ moveCode) (hnote : note ∈ noteTexts) :
    IsGenerated (.command code [] (.filled note)) :=
  .setting hcode hne (fun field hfield => by cases hfield) hnote

/-- A command that sets one number. -/
theorem IsGenerated.set {code note : String} {letter : Letter} {value : Double}
    (hcode : code ∈ commandCodes) (hne : code ≠ moveCode) (hnote : note ∈ noteTexts) :
    IsGenerated (.command code [.plain letter value] (.filled note)) := by
  refine .setting hcode hne (fun field hfield => ?_) hnote
  cases List.mem_singleton.mp hfield
  rfl

end Instruction

/-! ## Programs -/

namespace Technique
open Instruction
variable {technique : Technique} {total : Double} {instruction : Instruction}

theorem isGenerated_of_mem_heaterCommands {nozzle bed : Double} {nozzleNote bedNote : String}
    (hnozzle : nozzleNote ∈ noteTexts) (hbed : bedNote ∈ noteTexts)
    (h : instruction ∈ heaterCommands nozzle bed nozzleNote bedNote) : instruction.IsGenerated := by
  simp only [heaterCommands, List.mem_cons, List.not_mem_nil, or_false] at h
  rcases h with rfl | rfl
  · exact .set (by decide) (by decide) hnozzle
  · exact .set (by decide) (by decide) hbed

theorem isGenerated_of_mem_header (h : instruction ∈ technique.header) :
    instruction.IsGenerated := by
  simp only [header, List.mem_append, List.mem_cons, List.not_mem_nil, or_false] at h
  rcases h with ((rfl | rfl) | h) | rfl
  · exact .comment (by decide)
  · exact .bare (by decide) (by decide) (by decide)
  · cases technique with
    | thermoplastic settings => exact isGenerated_of_mem_heaterCommands (by decide) (by decide) h
    | paste settings => cases h
    | motion settings => cases h
  · exact .set (by decide) (by decide) (by decide)

theorem isGenerated_of_mem_footer (h : instruction ∈ technique.footer) :
    instruction.IsGenerated := by
  simp only [footer, List.mem_append, List.mem_cons, List.not_mem_nil, or_false] at h
  rcases h with (rfl | h) | rfl | rfl | rfl
  · exact .comment (by decide)
  · cases technique with
    | thermoplastic settings => exact isGenerated_of_mem_heaterCommands (by decide) (by decide) h
    | paste settings => cases h
    | motion settings => cases h
  · exact .bare (by decide) (by decide) (by decide)
  · exact .set (by decide) (by decide) (by decide)
  · exact .bare (by decide) (by decide) (by decide)

theorem isGenerated_of_mem_block {path : Path} (h : instruction ∈ technique.block total path) :
    instruction.IsGenerated := by
  have hnoted (target : MoveTarget) {note : String} (hnote : note ∈ noteTexts) :
      (linearMove target (some note)).IsGenerated := by
    refine .move target fun text htext => ?_
    cases htext
    exact hnote
  cases path with
  | nil => cases h
  | cons start rest =>
    rw [block, moves_eq_map, List.mem_append, List.mem_append] at h
    rcases h with (h | h) | h
    · simp only [approach, List.mem_cons, List.not_mem_nil, or_false] at h
      rcases h with rfl | rfl | rfl
      · exact .comment (by decide)
      · exact hnoted _ (by decide)
      · exact hnoted _ (by decide)
    · obtain ⟨target, -, rfl⟩ := List.mem_map.mp h
      exact .move _ fun text htext => by cases htext
    · simp only [lift, List.mem_cons, List.not_mem_nil, or_false] at h
      rcases h with rfl | rfl
      · exact .comment (by decide)
      · exact hnoted _ (by decide)

theorem isGenerated_of_mem_motionFrom {paths : List Path}
    (h : instruction ∈ technique.motionFrom total paths) : instruction.IsGenerated := by
  induction paths generalizing total with
  | nil => cases h
  | cons path rest ih =>
    rw [motionFrom, List.mem_append] at h
    rcases h with h | h
    · exact isGenerated_of_mem_block h
    · exact ih h

end Technique

/-- **A program is the caller's lines and instructions of the compiler's own.** -/
theorem Profile.exists_program_eq (profile : Profile) (ownHeader : List String)
    (paths : List Path) : ∃ generated,
      profile.program ownHeader paths = ownHeader.map .verbatim ++ generated ∧
        ∀ instruction ∈ generated, instruction.IsGenerated := by
  have hbehind : ∀ instruction ∈ motion profile.technique paths ++ profile.technique.footer,
      instruction.IsGenerated := by
    intro instruction h
    rcases List.mem_append.mp h with h | h
    · exact Technique.isGenerated_of_mem_motionFrom h
    · exact Technique.isGenerated_of_mem_footer h
  rw [program, Technique.assemble, Technique.headerOr, List.append_assoc]
  cases ownHeader with
  | nil =>
    refine ⟨profile.technique.header ++ _, rfl, fun instruction h => ?_⟩
    rcases List.mem_append.mp h with h | h
    · exact Technique.isGenerated_of_mem_header h
    · exact hbehind instruction h
  | cons line ownHeader => exact ⟨_, rfl, hbehind⟩

/-- **The lines of a program.**  Behind the caller's own lines, all lines are plain exactly when no
number of the program has reached `10 ^ 21`. -/
theorem generatedLine_iff_of_compile {geometry : List Value} {value : Value}
    {ownHeader : List String} {compilation : Compilation}
    (h : (compile geometry value ownHeader).result = .ok compilation) :
    ∃ generated, compilation.lines = ownHeader ++ generated ∧
      ((∀ line ∈ generated, GeneratedLine line.toList) ↔
        ∀ instruction ∈ compilation.instructions, ∀ field ∈ instruction.fields,
          field.value.isHuge = false) := by
  obtain ⟨profile, -, rfl, hfound⟩ := eq_compilation_of_compile h
  obtain ⟨generated, hprogram, hgenerated⟩ :=
    profile.exists_program_eq ownHeader (Path.ofValues geometry)
  have hfinite : ∀ instruction ∈ generated, ∀ field ∈ instruction.fields,
      field.isFinite = true := by
    intro instruction hinstruction field hfield
    refine Instruction.isFinite_of_firstNotFinite?_eq_none hfound ?_ hfield
    rw [hprogram]
    exact List.mem_append_right _ hinstruction
  refine ⟨generated.map Instruction.line, ?_, ?_⟩
  · have hown : (ownHeader.map Instruction.verbatim).map Instruction.line = ownHeader := by
      rw [List.map_map]
      exact List.map_id _
    change (profile.program ownHeader (Path.ofValues geometry)).map Instruction.line = _
    rw [hprogram, List.map_append, hown]
  · change _ ↔ ∀ instruction ∈ profile.program ownHeader (Path.ofValues geometry), _
    rw [hprogram, List.forall_mem_append, List.forall_mem_map, List.forall_mem_map]
    constructor
    · intro hlines
      refine ⟨fun line _ field hfield => ?_, fun instruction hinstruction => ?_⟩
      · cases hfield
      · exact ((hgenerated instruction hinstruction).generatedLine_iff
          (hfinite instruction hinstruction)).mp (hlines instruction hinstruction)
    · rintro ⟨-, hsmall⟩ instruction hinstruction
      exact ((hgenerated instruction hinstruction).generatedLine_iff
        (hfinite instruction hinstruction)).mpr (hsmall instruction hinstruction)

/-- Every line of the job is plain. -/
theorem generatedLine_iff_of_compile_job :
    (compile jobGeometry jobSettings []).result = .ok (jobProfile.compilation [] [jobPath]) ∧
      ∀ line ∈ (jobProfile.compilation [] [jobPath]).lines, GeneratedLine line.toList := by
  obtain ⟨generated, hlines, hplain⟩ := generatedLine_iff_of_compile compile_job
  refine ⟨compile_job, ?_⟩
  rw [hlines, List.nil_append, hplain]
  have hsmall : ((jobProfile.program [] [jobPath]).flatMap Instruction.fields).all
      (fun field => !field.value.isHuge) = true := by decide +kernel
  intro instruction hinstruction field hfield
  have hmem := List.mem_flatMap.mpr ⟨instruction, hinstruction, hfield⟩
  simpa using List.all_eq_true.mp hsmall field hmem

/-- A path to one point whose first coordinate is `10 ^ 21`. -/
def farGeometry : List Value := [.list [.list [.number 1e21, .number 0, .number 0]]]

/-- The move to a point at `10 ^ 21` is written with a power of ten. -/
theorem not_forall_generatedLine :
    ¬∀ geometry value compilation, (compile geometry value []).result = .ok compilation →
      ∀ line ∈ compilation.lines, GeneratedLine line.toList := by
  intro h
  have hplus : (compile farGeometry .null []).result.toOption.any
      (fun compilation => compilation.lines.any fun line => line.toList.contains '+') = true := by
    decide +kernel
  cases hresult : (compile farGeometry .null []).result with
  | error fault =>
    rw [hresult] at hplus
    cases hplus
  | ok compilation =>
    rw [hresult] at hplus
    obtain ⟨line, hline, hmem⟩ := List.any_eq_true.mp hplus
    have hgenerated := h farGeometry .null compilation hresult line hline
    exact hgenerated.plus_notMem (List.contains_iff_mem.mp hmem)

end Toolpath
