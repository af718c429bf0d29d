import Toolpath.Proofs.FixedTexts
import Toolpath.Proofs.PlainLines

/-! # Reading a command

The line of a command is taken apart again: its note stands behind the first semicolon between two
blanks (`cutNote`), and blanks part what stands in front of that.  A number has no blank and no
semicolon in it, so neither cut goes wrong whatever the note says.  What is read of a field is its
letter and its value rounded to the places that it asks for (`Field.SpelledBy`,
`exists_write_command`).
-/
namespace Toolpath

/-! ## Cutting -/

/-- A line cut at the first semicolon between two blanks, if it has one. -/
def cutNote : List Char → List Char × Option (List Char)
  | [] => ([], none)
  | c :: rest =>
    if [' ', ';', ' '].isPrefixOf (c :: rest) then ([], some (rest.drop 2))
    else
      let (words, note) := cutNote rest
      (c :: words, note)

/-- A note begins only where the second character is a semicolon. -/
theorem isPrefixOf_mark_eq_false {c : Char} {rest : List Char} (h : rest.head? ≠ some ';') :
    [' ', ';', ' '].isPrefixOf (c :: rest) = false := by
  cases rest with
  | nil => simp [List.isPrefixOf]
  | cons d rest =>
    have hd : ';' ≠ d := fun heq => h (congrArg some heq.symm)
    simp [List.isPrefixOf, hd]

/-- Where no semicolon stands in front of it, a line is cut at its note. -/
theorem cutNote_append {words : List Char} (h : ';' ∉ words) (note : List Char) :
    cutNote (words ++ ' ' :: ';' :: ' ' :: note) = (words, some note) := by
  induction words with
  | nil => rfl
  | cons c words ih =>
    rw [List.mem_cons, not_or] at h
    have hhead : (words ++ ' ' :: ';' :: ' ' :: note).head? ≠ some ';' := by
      cases words with
      | nil => simp
      | cons d words =>
        intro heq
        cases heq
        exact h.2 List.mem_cons_self
    rw [List.cons_append, cutNote, isPrefixOf_mark_eq_false hhead, if_neg Bool.false_ne_true,
      ih h.2]

theorem cutNote_eq_self {words : List Char} (h : ';' ∉ words) : cutNote words = (words, none) := by
  induction words with
  | nil => rfl
  | cons c words ih =>
    rw [List.mem_cons, not_or] at h
    have hhead : words.head? ≠ some ';' := fun heq => h.2 (List.mem_of_mem_head? heq)
    rw [cutNote, isPrefixOf_mark_eq_false hhead, if_neg Bool.false_ne_true, ih h.2]

/-- The note of a line, if it is there, is what the cut leaves behind. -/
theorem cutNote_append_noteSuffix {words : List Char} (h : ';' ∉ words) (note : Option String) :
    cutNote (words ++ (noteSuffix note).toList) =
      (words, (note.filter (· ≠ "")).map String.toList) := by
  cases note with
  | none =>
    rw [noteSuffix, String.toList_empty, List.append_nil, cutNote_eq_self h]
    rfl
  | some note =>
    by_cases hempty : note = ""
    · rw [hempty, noteSuffix]
      simp [cutNote_eq_self h]
    · have hsuffix : (noteSuffix (some note)).toList = ' ' :: ';' :: ' ' :: note.toList := by
        have hnot : note.isEmpty = false := by simpa using hempty
        rw [noteSuffix, hnot, if_neg Bool.false_ne_true, String.toList_append,
          String.toList_append]
        rfl
      rw [hsuffix, cutNote_append h]
      simp [Option.filter, hempty]

/-! ## Places -/

namespace Field
variable {field : Field} {places : ℕ}

/-- The places that a field asks for, where that is a number of places that can be written. -/
inductive AsksFor (field : Field) : ℕ → Prop
  | plain (h : field.places.value? = none) : AsksFor field Double.plainPlaces
  | fixed {asked : Double} {places : ℕ} (h : field.places.value? = some asked)
    (hfinite : asked.isFinite = true) (hvalue : asked.value = places) (hle : places ≤ 100) :
    AsksFor field places

theorem asPlaces?_of_value_eq {asked : Double} (hfinite : asked.isFinite = true)
    (hvalue : asked.value = places) (hle : places ≤ 100) : asked.asPlaces? = some places := by
  obtain ⟨negative, size, rfl⟩ := Double.exists_finite_of_isFinite hfinite
  have hunits : (Double.finite negative size).units = places * Double.unitsPerOne := by
    rw [Double.value, div_eq_iff (ne_of_gt Double.unitsPerOne_cast_pos)] at hvalue
    exact_mod_cast hvalue
  have hwhole : (Double.finite negative size).truncate = places := by
    rw [Double.truncate, hunits]
    exact Int.mul_tdiv_cancel _ (by exact_mod_cast Nat.ne_of_gt unitsPerOne_pos)
  have hlimit : placesLimit = 100 := rfl
  rw [Double.asPlaces?, hwhole, if_pos (by omega), Int.toNat_natCast]

theorem AsksFor.placesFit (h : field.AsksFor places) : field.PlacesFit := by
  intro asked hasked
  cases h with
  | plain hnone => rw [hnone] at hasked; cases hasked
  | fixed hsome hfinite hvalue hle =>
    rw [hsome] at hasked
    cases hasked
    rw [asPlaces?_of_value_eq hfinite hvalue hle]
    rfl

/-- A word that is the letter of a field and a number: its value rounded to the places that it asks
for, a tie going away from zero. -/
def SpelledBy (field : Field) (word : List Char) : Prop :=
  ∃ (number : String) (places : ℕ) (i : ℤ), word = field.letter.char :: number.toList ∧
    field.AsksFor places ∧ exactValue? number = some ((i : ℚ) / 10 ^ places) ∧
    IsNearest .away (field.value.value * 10 ^ places) i

/-- **A field is spelled** by the text that is written for it. -/
theorem spelledBy_text (h : field.AsksFor places) (hfinite : field.value.isFinite = true)
    (hsmall : |field.value.value| < 10 ^ 21) : field.SpelledBy field.text.toList := by
  have hhuge := (Double.isHuge_eq_false_iff hfinite).mpr hsmall
  refine ⟨field.number, places, _, field.toList_text, h, ?_,
    Double.isNearest_nearestSteps .away places hfinite⟩
  cases h with
  | plain hnone =>
    rw [number, hnone]
    dsimp only [Option.bind_none]
    rw [Double.plainText_eq_stepsText hhuge, exactValue?_stepsText]
  | fixed hsome hasked hvalue hle =>
    rw [number, hsome, Option.bind_some, asPlaces?_of_value_eq hasked hvalue hle]
    exact Double.exactValue?_fixedText hhuge places

theorem semicolon_notMem_text (h : field.isFinite = true) : ';' ∉ field.text.toList := by
  refine notMem_text h ?_ fun letter => by cases letter <;> decide
  rintro (h | h | h | h | h | h) <;> cases h

end Field

/-! ## Commands -/

/-- **A written command is read back.**  A line is written.  It is cut exactly where there is a note
that says something, and the note stands behind the cut as it was.  The words in front are the code
and, in order, the fields. -/
theorem exists_write_command {code : String} {fields : List Field}
    (hblank : ' ' ∉ code.toList) (hmark : ';' ∉ code.toList)
    (hplaces : ∀ field ∈ fields, ∃ places, field.AsksFor places)
    (hfinite : ∀ field ∈ fields, field.value.isFinite = true)
    (hsmall : ∀ field ∈ fields, |field.value.value| < 10 ^ 21) (note : Slot String) :
    ∃ line words, (Instruction.command code fields note).write = .ok line ∧
      (cutNote line.toList).1.splitOn ' ' = code.toList :: words ∧
      List.Forall₂ Field.SpelledBy fields words ∧
      (∀ text, note.value? = some text → text ≠ "" →
        (cutNote line.toList).2 = some text.toList) ∧
      ((cutNote line.toList).2 = none ↔ note.value? = none ∨ note.value? = some "") := by
  have hfit : (Instruction.command code fields note).PlacesFit := by
    intro field hfield
    obtain ⟨places, hasks⟩ := hplaces field hfield
    exact hasks.placesFit
  have hnone : (Instruction.command code fields note).fields.find?
      (fun field => !field.isFinite) = none := by
    rw [List.find?_eq_none]
    intro field hfield
    rw [Bool.not_eq_true, Bool.not_eq_false']
    exact hfinite field hfield
  have hwrite := Instruction.write_eq hfit
  rw [hnone, Option.elim_none] at hwrite
  have hfree := Instruction.notMem_intercalate (by decide) hmark
    fun field hfield => Field.semicolon_notMem_text (hfinite field hfield)
  have hcut := cutNote_append_noteSuffix hfree note.value?
  rw [← String.toList_append, ← Instruction.line] at hcut
  refine ⟨_, fields.map fun field => field.text.toList, hwrite, ?_, ?_, ?_, ?_⟩
  · rw [hcut]
    exact splitOn_command hblank hfinite
  · rw [List.forall₂_map_right_iff, List.forall₂_same]
    intro field hfield
    obtain ⟨places, hasks⟩ := hplaces field hfield
    exact Field.spelledBy_text hasks (hfinite field hfield) (hsmall field hfield)
  · intro text htext hne
    rw [hcut, htext]
    simp [Option.filter, hne]
  · rw [hcut]
    cases note.value? with
    | none => simp
    | some text => by_cases hempty : text = "" <;> simp [Option.filter, hempty]

/-- Two fields with one letter, a tie below zero that is written without decimals, and a tie that is
written with four. -/
def tiedFields : List Field :=
  [⟨.x, -2.5, .filled 0⟩, ⟨.x, 0.0000005, .missing⟩, ⟨.e, 0.03125, .filled 4⟩]

theorem exists_write_command_tied :
    ' ' ∉ "G1".toList ∧ ';' ∉ "G1".toList ∧
      (∀ field ∈ tiedFields, ∃ places, field.AsksFor places) ∧
      (∀ field ∈ tiedFields, field.value.isFinite = true) ∧
      (∀ field ∈ tiedFields, |field.value.value| < 10 ^ 21) ∧
      ∃ line words, (Instruction.command "G1" tiedFields (.filled "a ; b")).write = .ok line ∧
        (cutNote line.toList).1.splitOn ' ' = "G1".toList :: words ∧
        List.Forall₂ Field.SpelledBy tiedFields words ∧
        (cutNote line.toList).2 = some "a ; b".toList := by
  have hfinite : ∀ field ∈ tiedFields, field.value.isFinite = true :=
    List.all_eq_true.mp (by decide +kernel : tiedFields.all (·.value.isFinite) = true)
  have hplaces : ∀ field ∈ tiedFields, ∃ places, field.AsksFor places := by
    have hnone : (0 : Double).value = (0 : ℕ) := Double.value_eq_natCast (by decide +kernel)
    have hfour : (4 : Double).value = (4 : ℕ) := Double.value_eq_natCast (by decide +kernel)
    intro field hfield
    simp only [tiedFields, List.mem_cons, List.not_mem_nil, or_false] at hfield
    rcases hfield with rfl | rfl | rfl
    · exact ⟨0, .fixed rfl (by decide +kernel) hnone (by decide)⟩
    · exact ⟨_, .plain rfl⟩
    · exact ⟨4, .fixed rfl (by decide +kernel) hfour (by decide)⟩
  have hsmall : ∀ field ∈ tiedFields, |field.value.value| < 10 ^ 21 := by
    have hall : tiedFields.all (fun field => !field.value.isHuge) = true := by decide +kernel
    intro field hfield
    have hhuge := List.all_eq_true.mp hall field hfield
    rw [Bool.not_eq_true'] at hhuge
    exact (Double.isHuge_eq_false_iff (hfinite field hfield)).mp hhuge
  have hblank : ' ' ∉ "G1".toList := by decide
  have hmark : ';' ∉ "G1".toList := by decide
  have hread := exists_write_command hblank hmark hplaces hfinite hsmall
  obtain ⟨line, words, hwrite, hwords, hspelled, hnote, -⟩ := hread (.filled "a ; b")
  exact ⟨hblank, hmark, hplaces, hfinite, hsmall, line, words, hwrite, hwords, hspelled,
    hnote "a ; b" rfl (by decide)⟩

end Toolpath
