import Toolpath.Proofs.Compiling
import Toolpath.Proofs.ReadBack
import Toolpath.Proofs.SoundProfiles
import Mathlib.Data.List.TakeWhile

/-! # Replaying a program

A program is text, and the paths can be read off it again.  `moveFields?` takes a line of a move
apart and `pointOf?` reads the three coordinates on it.  The lines between header and footer fall
into blocks, one for each path, and the moves of a block go through exactly the points of its path
(`lines_of_compile`).  That rests on the plain text of a coordinate reading back to the same double.
-/
namespace Toolpath

/-! ## Reading a line -/

/-- The words of a line up to its note. -/
def commandWords (line : String) : List (List Char) :=
  (line.toList.splitOn ' ').takeWhile (· != [';'])

/-- A letter and the text behind it. -/
def letteredText? (word : List Char) : Option (Char × String) :=
  word.head?.map fun letter => (letter, String.ofList word.tail)

/-- The letters of the line of a move, with the texts of their numbers. -/
def moveFields? (line : String) : Option (List (Char × String)) :=
  match commandWords line with
  | ['G', '1'] :: words => words.mapM letteredText?
  | _ => none

/-- The text of the number behind a letter. -/
def letterText? (letter : Char) (line : String) : Option String :=
  (moveFields? line).bind fun fields => fields.lookup letter

/-- The number behind a letter. -/
def letterNumber? (letter : Char) (line : String) : Option Double :=
  (letterText? letter line).bind Double.ofText?

/-- The point that a line moves to, where it names all three coordinates. -/
def pointOf? (line : String) : Option Point := do
  let x ← letterNumber? 'X' line
  let y ← letterNumber? 'Y' line
  let z ← letterNumber? 'Z' line
  return ⟨x, y, z⟩

/-! ## Lines of moves -/

/-- A field is its letter and its number. -/
theorem Field.toList_text (field : Field) :
    field.text.toList = field.letter.char :: field.number.toList := by
  rw [text, String.toList_append]
  cases field.letter <;> rfl

theorem Field.isNumeralChar_of_mem_number {field : Field} {c : Char} (h : field.isFinite = true)
    (hc : c ∈ field.number.toList) : IsNumeralChar c := by
  unfold isFinite at h
  unfold number at hc
  cases hvalue : field.value with
  | nan => rw [hvalue] at h; cases h
  | infinite negative => rw [hvalue] at h; cases h
  | finite negative size =>
    rw [hvalue] at hc
    split at hc
    · rw [Double.plainText, String.toList_ofList] at hc
      exact Double.isNumeralChar_of_mem_plainChars hc
    · rw [Double.fixedText, String.toList_ofList] at hc
      exact Double.isNumeralChar_of_mem_fixedChars hc

/-- Nothing but a letter and the characters of a numeral stands in a field. -/
theorem Field.notMem_text {field : Field} {c : Char} (h : field.isFinite = true)
    (hnumeral : ¬IsNumeralChar c) (hletter : ∀ letter : Letter, letter.char ≠ c) :
    c ∉ field.text.toList := by
  rw [toList_text, List.mem_cons, not_or]
  exact ⟨(hletter field.letter).symm, fun hc => hnumeral (isNumeralChar_of_mem_number h hc)⟩

/-- A blank is in no number. -/
theorem Field.blank_notMem_text {field : Field} (h : field.isFinite = true) :
    ' ' ∉ field.text.toList := by
  refine notMem_text h ?_ fun letter => by cases letter <;> decide
  rintro (h | h | h | h | h | h) <;> cases h

/-- A code and its fields are parted by blanks. -/
theorem splitOn_command {code : String} {fields : List Field} (hblank : ' ' ∉ code.toList)
    (hfinite : ∀ field ∈ fields, field.isFinite = true) :
    (String.intercalate " " (code :: fields.map Field.text)).toList.splitOn ' ' =
      code.toList :: fields.map fun field => field.text.toList := by
  have hwords : ∀ word ∈ code.toList :: fields.map fun field => field.text.toList, ' ' ∉ word := by
    refine List.forall_mem_cons.mpr ⟨hblank, ?_⟩
    intro word hword
    obtain ⟨field, hfield, rfl⟩ := List.mem_map.mp hword
    exact Field.blank_notMem_text (hfinite field hfield)
  have hsplit := List.splitOn_intercalate ' ' hwords (List.cons_ne_nil _ _)
  rw [String.toList_intercalate, List.map_cons, List.map_map]
  exact hsplit

/-- The words that a move is written in, its note aside. -/
def moveWords (target : MoveTarget) : List (List Char) :=
  ['G', '1'] :: target.fields.map fun field => field.text.toList

/-- No word of a move is a semicolon. -/
theorem ne_semicolon_of_mem_moveWords {target : MoveTarget} {word : List Char}
    (h : word ∈ moveWords target) : (word != [';']) = true := by
  rcases List.mem_cons.mp h with rfl | h
  · rfl
  · obtain ⟨field, -, rfl⟩ := List.mem_map.mp h
    rw [Field.toList_text, bne_iff_ne]
    intro heq
    have hletter := (List.cons.inj heq).1
    revert hletter
    cases field.letter <;> decide

/-- A note, if there is one, begins with a semicolon for a word. -/
theorem noteSuffix_cases (note : Option String) :
    noteSuffix note = "" ∨ ∃ behind, (noteSuffix note).toList = ' ' :: ';' :: ' ' :: behind := by
  cases note with
  | none => exact .inl rfl
  | some note =>
    rw [noteSuffix]
    split
    · exact .inl rfl
    · exact .inr ⟨note.toList, by rw [String.toList_append, String.toList_append]; rfl⟩

/-- The words in front of the note are read off the line of a move. -/
theorem commandWords_linearMove {target : MoveTarget} (note : Option String)
    (h : ∀ field ∈ target.fields, field.isFinite = true) :
    commandWords (Instruction.linearMove target note).line = moveWords target := by
  have hnote : ∀ word ∈ moveWords target, (word != [';']) = true :=
    fun word hword => ne_semicolon_of_mem_moveWords hword
  have hsplit : (String.intercalate " " ("G1" :: target.fields.map Field.text)).toList.splitOn ' ' =
      moveWords target := splitOn_command (by decide) h
  rw [commandWords, Instruction.line_linearMove]
  rcases noteSuffix_cases note with hnone | ⟨behind, hbehind⟩
  · rw [hnone, String.append_empty, hsplit]
    exact List.takeWhile_eq_self_iff.mpr hnote
  · have hword : (';' :: ' ' :: behind).splitOn ' ' = [';'] :: behind.splitOn ' ' :=
      List.splitOn_append_cons_self [';'] behind
    rw [String.toList_append, hbehind, List.splitOn_append_cons_self, hsplit,
      List.takeWhile_append_of_pos hnote, hword, List.takeWhile_cons_of_neg (by decide),
      List.append_nil]

/-- **A line of a move is taken apart into its fields.** -/
theorem moveFields?_linearMove {target : MoveTarget} (note : Option String)
    (h : ∀ field ∈ target.fields, field.isFinite = true) :
    moveFields? (Instruction.linearMove target note).line =
      some (target.fields.map fun field => (field.letter.char, field.number)) := by
  have hletter : ∀ field ∈ target.fields, letteredText? field.text.toList =
      some (field.letter.char, field.number) := by
    intro field _
    rw [Field.toList_text, letteredText?]
    exact congrArg (fun number => some (field.letter.char, number)) String.ofList_toList
  unfold moveFields?
  rw [commandWords_linearMove note h, moveWords]
  exact mapM_map_eq_some hletter

/-- What a move to a point says. -/
theorem moveFields?_moveTo {technique : Technique} {point : Point} {extrusion : Option Double}
    (note : Option String)
    (h : ∀ field ∈ (technique.moveTo point extrusion).fields, field.isFinite = true) :
    moveFields? (Instruction.linearMove (technique.moveTo point extrusion) note).line =
      some ([('X', point.x.plainText), ('Y', point.y.plainText), ('Z', point.z.plainText)] ++
        (extrusion.map fun total => ('E', (Field.extrusion total).number)).toList ++
        [('F', technique.feedRate.plainText)]) := by
  rw [moveFields?_linearMove note h]
  cases extrusion <;> rfl

theorem letterNumber?_of_plainText {letter : Char} {line : String} {x : Double}
    (h : letterText? letter line = some x.plainText) (hx : x.IsRounded) :
    letterNumber? letter line = some x := by
  rw [letterNumber?, h, Option.bind_some]
  exact Double.ofText?_plainText hx.isCoordinate

/-- **A move to a rounded point is read as that point.** -/
theorem pointOf?_moveTo {technique : Technique} {point : Point} {extrusion : Option Double}
    (note : Option String) (hpoint : point.IsRounded)
    (h : ∀ field ∈ (technique.moveTo point extrusion).fields, field.isFinite = true) :
    pointOf? (Instruction.linearMove (technique.moveTo point extrusion) note).line =
      some point := by
  have hfields := moveFields?_moveTo note h
  have hx : letterNumber? 'X' _ = some point.x :=
    letterNumber?_of_plainText (by rw [letterText?, hfields]; rfl) hpoint.x
  have hy : letterNumber? 'Y' _ = some point.y :=
    letterNumber?_of_plainText (by rw [letterText?, hfields]; rfl) hpoint.y
  have hz : letterNumber? 'Z' _ = some point.z :=
    letterNumber?_of_plainText (by rw [letterText?, hfields]; rfl) hpoint.z
  rw [pointOf?, hx, hy, hz]
  rfl

theorem letterText?_feedRate {technique : Technique} {point : Point} {extrusion : Option Double}
    (note : Option String)
    (h : ∀ field ∈ (technique.moveTo point extrusion).fields, field.isFinite = true) :
    letterText? 'F' (Instruction.linearMove (technique.moveTo point extrusion) note).line =
      some technique.feedRate.plainText := by
  rw [letterText?, moveFields?_moveTo note h]
  cases extrusion <;> rfl

/-! ## Blocks -/

/-- The lines of a path that starts at one point and goes on through others. -/
structure Technique.IsBlock (technique : Technique) (start : Point) (rest : List Point)
    (above down : String) (along : List String) (up : String) : Prop where
  /-- The tool comes in above the first point, in the height to travel in. -/
  above_fields : moveFields? above = some [('X', start.x.plainText), ('Y', start.y.plainText),
    ('Z', (start.z + technique.clearanceHeight).plainText), ('F', "2000")]
  above_x : letterNumber? 'X' above = some start.x
  above_y : letterNumber? 'Y' above = some start.y
  /-- It goes down to the first point and then through the others. -/
  points : (down :: along).mapM pointOf? = some (start :: rest)
  /-- All moves along the path have the feed rate of the work. -/
  feedRate : ∀ line ∈ down :: along, letterText? 'F' line = some technique.feedRate.plainText
  /-- The tool is lifted from the last point, and nothing but its height changes. -/
  up_fields : moveFields? up =
    some [('Z', ((rest.getLastD start).z + technique.clearanceHeight).plainText), ('F', "2000")]

/-- The lines of a path: two comments around the moves, four lines more than there are points. -/
def Technique.BlockLines (technique : Technique) (path : Path) (lines : List String) : Prop :=
  lines.length = path.length + 4 ∧
  ∃ start rest above down along up, path = start :: rest ∧
    lines = ["; Start path", above, down] ++ along ++ ["; End path", up] ∧
    technique.IsBlock start rest above down along up

theorem plainText_rapidFeedRate : rapidFeedRate.plainText = "2000" := by decide +kernel

namespace Technique
variable {technique : Technique} {total : Double}

/-- The lines of a block, for any moves to its points. -/
theorem isBlock_of_targets {start : Point} {targets : List (Point × Option Double)}
    (hstart : start.IsRounded) (hrest : ∀ target ∈ targets, target.1.IsRounded)
    (h : ∀ instruction ∈ technique.approach start ++
        targets.map (fun target => .linearMove (technique.moveTo target.1 target.2) none) ++
          technique.lift ((targets.map Prod.fst).getLastD start),
      ∀ field ∈ instruction.fields, field.isFinite = true) :
    ∃ above down up,
      (technique.approach start).map Instruction.line = ["; Start path", above, down] ∧
      (technique.lift ((targets.map Prod.fst).getLastD start)).map Instruction.line =
        ["; End path", up] ∧
      technique.IsBlock start (targets.map Prod.fst) above down
        (targets.map fun target =>
          (Instruction.linearMove (technique.moveTo target.1 target.2) none).line) up := by
  simp only [List.forall_mem_append] at h
  obtain ⟨⟨happroach, hmoves⟩, hlift⟩ := h
  have habove := happroach _ (List.mem_cons_of_mem _ List.mem_cons_self)
  have hdown := happroach _ (List.mem_cons_of_mem _ (List.mem_cons_of_mem _ List.mem_cons_self))
  have hup := hlift _ (List.mem_cons_of_mem _ List.mem_cons_self)
  have htarget : ∀ target ∈ targets, ∀ field ∈ (technique.moveTo target.1 target.2).fields,
      field.isFinite = true :=
    fun target hmem => hmoves _ (List.mem_map.mpr ⟨target, hmem, rfl⟩)
  -- the heights to travel in and the rates are compared as texts; only coordinates are read back
  have haboveFields := moveFields?_linearMove (some "move above start") habove
  have hupFields := moveFields?_linearMove (some "lift tool") hup
  refine ⟨_, _, _, rfl, rfl, ?_⟩
  constructor
  · rw [haboveFields, ← plainText_rapidFeedRate]
    rfl
  · rw [letterNumber?, letterText?, haboveFields]
    exact Double.ofText?_plainText hstart.x.isCoordinate
  · rw [letterNumber?, letterText?, haboveFields]
    exact Double.ofText?_plainText hstart.y.isCoordinate
  · have hpoints := mapM_map_eq_some fun target hmem =>
      pointOf?_moveTo none (hrest target hmem) (htarget target hmem)
    rw [List.mapM_cons, pointOf?_moveTo _ hstart hdown, hpoints]
    rfl
  · intro line hline
    rcases List.mem_cons.mp hline with rfl | hline
    · exact letterText?_feedRate _ hdown
    · obtain ⟨target, hmem, rfl⟩ := List.mem_map.mp hline
      exact letterText?_feedRate none (htarget target hmem)
  · rw [hupFields, ← plainText_rapidFeedRate]
    rfl

/-- **The lines of a block go through its path.** -/
theorem blockLines_block {path : Path} (hpath : path.IsRounded)
    (h : ∀ instruction ∈ technique.block total path, ∀ field ∈ instruction.fields,
      field.isFinite = true) :
    technique.BlockLines path ((technique.block total path).map Instruction.line) := by
  cases path with
  | nil => exact absurd rfl hpath.ne_nil
  | cons start rest =>
    have hpoints : (technique.targets total (start :: rest)).map Prod.fst = rest := map_fst_targets
    have hmoves := moves_eq_map technique total (start :: rest)
    -- from here on it does not matter which totals the moves carry
    generalize technique.targets total (start :: rest) = targets at hpoints hmoves
    subst hpoints
    have hrest : ∀ target ∈ targets, target.1.IsRounded := fun target hmem =>
      hpath.isRounded _ (List.mem_cons_of_mem _ (List.mem_map.mpr ⟨target, hmem, rfl⟩))
    rw [block, hmoves] at h
    rw [block, hmoves]
    obtain ⟨above, down, up, habove, hup, hblock⟩ :=
      isBlock_of_targets (hpath.isRounded start List.mem_cons_self) hrest h
    rw [List.map_append, List.map_append, habove, hup, List.map_map]
    refine ⟨?_, start, _, above, down, _, up, rfl, rfl, hblock⟩
    simp only [List.length_append, List.length_map, List.length_cons, List.length_nil]
    omega

/-- **The lines of some paths are blocks that go through them.** -/
theorem exists_blocks_motionFrom {paths : List Path} (hpaths : ∀ path ∈ paths, path.IsRounded)
    (h : ∀ instruction ∈ technique.motionFrom total paths, ∀ field ∈ instruction.fields,
      field.isFinite = true) :
    ∃ blocks, (technique.motionFrom total paths).map Instruction.line = blocks.flatten ∧
      List.Forall₂ technique.BlockLines paths blocks := by
  induction paths generalizing total with
  | nil => exact ⟨[], rfl, .nil⟩
  | cons path rest ih =>
    rw [motionFrom, List.forall_mem_append] at h
    obtain ⟨hpath, hrest⟩ := h
    obtain ⟨blocks, hblocks, hforall⟩ :=
      ih (fun other hother => hpaths other (List.mem_cons_of_mem _ hother)) hrest
    refine ⟨(technique.block total path).map Instruction.line :: blocks, ?_, ?_⟩
    · rw [motionFrom, List.map_append, hblocks, List.flatten_cons]
    · exact .cons (blockLines_block (hpaths path List.mem_cons_self) hpath) hforall

end Technique

/-! ## Programs -/

/-- **A program goes through the paths it was compiled for.**  Between the lines of its header and
those of its footer it is one block after another, one for each path. -/
theorem lines_of_compile {geometry : List Value} {value : Value} {ownHeader : List String}
    {compilation : Compilation}
    (h : (compile geometry value ownHeader).result = .ok compilation) :
    ∃ headerLines blocks footerLines,
      compilation.lines = headerLines ++ blocks.flatten ++ footerLines ∧
      headerLines.length =
        (if ownHeader.isEmpty then compilation.profile.technique.header.length
          else ownHeader.length) ∧
      footerLines.length = compilation.profile.technique.footer.length ∧
      List.Forall₂ compilation.profile.technique.BlockLines compilation.paths blocks := by
  obtain ⟨profile, hprofile, rfl, hnone⟩ := eq_compilation_of_compile h
  have hfinite : ∀ instruction ∈ profile.program ownHeader (Path.ofValues geometry),
      ∀ field ∈ instruction.fields, field.isFinite = true := by
    intro instruction hinstruction field hfield
    have hgood := List.find?_eq_none.mp hnone field (List.mem_flatMap.mpr ⟨_, hinstruction, hfield⟩)
    rwa [Bool.not_eq_true, Bool.not_eq_false'] at hgood
  have hpaths : ∀ path ∈ Path.ofValues geometry, path.IsRounded :=
    fun path hpath => Path.isRounded_of_mem_ofValues hpath
  rw [Profile.program, Technique.assemble, List.forall_mem_append,
    List.forall_mem_append] at hfinite
  obtain ⟨blocks, hblocks, hforall⟩ := Technique.exists_blocks_motionFrom hpaths hfinite.1.2
  refine ⟨(profile.technique.headerOr ownHeader).map Instruction.line, blocks,
    profile.technique.footer.map Instruction.line, ?_, ?_, List.length_map _, hforall⟩
  · rw [← hblocks, ← List.map_append, ← List.map_append]
    rfl
  · rw [List.length_map, Technique.headerOr]
    split
    · rfl
    · exact List.length_map _

theorem lines_of_compile_job :
    (compile jobGeometry jobSettings []).result = .ok (jobProfile.compilation [] [jobPath]) ∧
      ∃ headerLines blocks footerLines,
        (jobProfile.compilation [] [jobPath]).lines =
          headerLines ++ blocks.flatten ++ footerLines ∧
        headerLines.length = 3 ∧ footerLines.length = 4 ∧
        List.Forall₂ jobProfile.technique.BlockLines [jobPath] blocks :=
  ⟨compile_job, lines_of_compile compile_job⟩

end Toolpath
