import Toolpath.Archive
import Toolpath.Proofs.PlainLines

/-! # Program texts

A program is stored as one text in which a line feed ends every line.  The text can be cut into its
lines again as long as no line holds a line feed itself (`splitOn_programText`), and the compiler
writes none into a line of its own (`newline_notMem_of_compile`).
-/
namespace Toolpath

/-! ## Cutting a text into lines -/

/-- A line feed behind every line is one between any two pieces, the last of which is empty. -/
theorem toList_programText (lines : List String) :
    (programText lines).toList = ['\n'].intercalate (lines.map String.toList ++ [[]]) := by
  have hfeed : "\n".toList = ['\n'] := rfl
  rw [programText]
  cases lines with
  | nil => rfl
  | cons line lines =>
    rw [List.isEmpty_cons, if_neg Bool.false_ne_true, String.toList_append,
      String.toList_intercalate, hfeed, List.map_cons]
    generalize line.toList = first
    -- on the lines behind the first, whatever the first is
    induction lines generalizing first with
    | nil => simp
    | cons line lines ih =>
      have hrest := ih line.toList
      simp only [List.map_cons, List.cons_append, List.intercalate_cons_cons,
        List.append_assoc] at hrest ⊢
      rw [hrest]

/-- **The text of a program is cut into its lines** and one empty piece behind the last of them. -/
theorem splitOn_programText {lines : List String} (h : ∀ line ∈ lines, '\n' ∉ line.toList) :
    (programText lines).toList.splitOn '\n' = lines.map String.toList ++ [[]] := by
  have hfree : ∀ piece ∈ lines.map String.toList ++ [[]], '\n' ∉ piece := by
    intro piece hpiece
    rcases List.mem_append.mp hpiece with hpiece | hpiece
    · obtain ⟨line, hline, rfl⟩ := List.mem_map.mp hpiece
      exact h line hline
    · rw [List.mem_singleton.mp hpiece]
      exact List.not_mem_nil
  rw [toList_programText]
  exact List.splitOn_intercalate '\n' hfree
    (List.append_ne_nil_of_right_ne_nil _ (List.cons_ne_nil _ _))

/-! ## Lines of the compiler's own -/

theorem newline_notMem_of_mem_texts {text : String}
    (h : text ∈ commandCodes ++ commentTexts ++ noteTexts) : '\n' ∉ text.toList := by
  have hall : (commandCodes ++ commentTexts ++ noteTexts).all
      (fun text => decide ('\n' ∉ text.toList)) = true := rfl
  exact of_decide_eq_true (List.all_eq_true.mp hall text h)

/-- A finite field is written on one line, however many places are asked for. -/
theorem Field.newline_notMem_text {field : Field} (h : field.isFinite = true) :
    '\n' ∉ field.text.toList := by
  refine notMem_text h ?_ fun letter => by cases letter <;> decide
  rintro (h | h | h | h | h | h) <;> cases h

namespace Instruction

theorem newline_notMem_command {code : String} {fields : List Field} {note : Slot String}
    (hcode : code ∈ commandCodes) (hfields : ∀ field ∈ fields, field.isFinite = true)
    (hnote : ∀ text ∈ note.value?, text ∈ noteTexts) :
    '\n' ∉ (command code fields note).line.toList := by
  intro hmem
  rw [line, String.toList_append, List.mem_append] at hmem
  rcases hmem with hmem | hmem
  · have hfree : '\n' ∉ code.toList := newline_notMem_of_mem_texts
      (List.mem_append_left noteTexts (List.mem_append_left commentTexts hcode))
    exact notMem_intercalate (by decide) hfree
      (fun field hfield => Field.newline_notMem_text (hfields field hfield)) hmem
  · rcases noteSuffix_eq hnote with hempty | ⟨text, htext, hsuffix⟩
    · rw [hempty] at hmem
      cases hmem
    · rw [hsuffix] at hmem
      simp only [List.mem_cons] at hmem
      rcases hmem with heq | heq | heq | hmem
      · cases heq
      · cases heq
      · cases heq
      · exact newline_notMem_of_mem_texts (List.mem_append_right _ htext) hmem

/-- No line of the compiler's own holds a line feed. -/
theorem IsGenerated.newline_notMem {instruction : Instruction} (h : instruction.IsGenerated)
    (hfinite : ∀ field ∈ instruction.fields, field.isFinite = true) :
    '\n' ∉ instruction.line.toList := by
  cases h with
  | comment htext =>
    intro hmem
    rw [line, String.toList_append, List.mem_append] at hmem
    rcases hmem with hmem | hmem
    · revert hmem
      decide
    · exact newline_notMem_of_mem_texts
        (List.mem_append_left noteTexts (List.mem_append_right commandCodes htext)) hmem
  | setting hcode _ _ hnote =>
    refine newline_notMem_command hcode hfinite fun text htext => ?_
    cases htext
    exact hnote
  | move target hnote =>
    exact newline_notMem_command List.mem_cons_self hfinite (by rwa [Slot.value?_ofOption])

end Instruction

/-- **Only the caller's own lines** can bring a line feed into a line of a program. -/
theorem newline_notMem_of_compile {geometry : List Value} {value : Value} {ownHeader : List String}
    {compilation : Compilation}
    (h : (compile geometry value ownHeader).result = .ok compilation)
    (hown : ∀ line ∈ ownHeader, '\n' ∉ line.toList) :
    ∀ line ∈ compilation.lines, '\n' ∉ line.toList := by
  obtain ⟨profile, -, rfl, hfound⟩ := eq_compilation_of_compile h
  obtain ⟨generated, hprogram, hgenerated⟩ :=
    profile.exists_program_eq ownHeader (Path.ofValues geometry)
  intro line hline
  obtain ⟨instruction, hinstruction, rfl⟩ := List.mem_map.mp hline
  have hfinite : ∀ field ∈ instruction.fields, field.isFinite = true :=
    fun field hfield => Instruction.isFinite_of_firstNotFinite?_eq_none hfound hinstruction hfield
  rw [hprogram, List.mem_append] at hinstruction
  rcases hinstruction with hinstruction | hinstruction
  · obtain ⟨own, hmem, rfl⟩ := List.mem_map.mp hinstruction
    exact hown own hmem
  · exact (hgenerated instruction hinstruction).newline_notMem hfinite

end Toolpath
