import Toolpath.Proofs.Extrusions

/-! # Heaters

Two of the commands of a program set a heater.  A thermoplastic technique gives them in its header
and again in its footer, never in between; a caller's own header takes the place of the first two
but not of the last.  The other techniques give none of them.  The same mode decides whether the
moves along a path feed filament.  The statement about whole programs is
`Technique.modeGating_assemble`.

A machine that carries out the instructions (`Heaters.run`) therefore ends with its heaters off
after a thermoplastic program, whatever they were set to before and whatever the caller's lines do.
-/
namespace Toolpath

/-- The parts of a machine that are heated. -/
inductive Heater
  | nozzle
  | bed
  deriving DecidableEq, Repr

/-- The code of the command that sets a heater. -/
def Heater.code : Heater → String
  | nozzle => "M104"
  | bed => "M140"

/-- The temperature that the settings give for a heater. -/
def Thermoplastic.temperature (settings : Thermoplastic) : Heater → Double
  | .nozzle => settings.nozzleTemp
  | .bed => settings.bedTemp

namespace Instruction

/-- Whether an instruction is the command for a heater. -/
def sets (instruction : Instruction) (heater : Heater) : Bool :=
  match instruction with
  | command code _ _ => code == heater.code
  | _ => false

/-- Whether a line is passed on as the caller gave it. -/
def isVerbatim : Instruction → Bool
  | verbatim _ => true
  | _ => false

/-- The instructions of a program that are no lines of the caller's own. -/
def generated (program : List Instruction) : List Instruction :=
  program.filter fun instruction => !instruction.isVerbatim

/-- The command that ends a header. -/
def resetExtrusion : Instruction := command "G92" [.plain .e 0] (.filled "reset extrusion")

theorem IsMotion.sets_eq_false {instruction : Instruction} (h : instruction.IsMotion)
    (heater : Heater) : instruction.sets heater = false := by
  rcases h with ⟨text, rfl⟩ | ⟨target, note, rfl⟩
  · rfl
  · cases heater <;> rfl

theorem IsMotion.isVerbatim_eq_false {instruction : Instruction} (h : instruction.IsMotion) :
    instruction.isVerbatim = false := by
  rcases h with ⟨text, rfl⟩ | ⟨target, note, rfl⟩ <;> rfl

theorem generated_append (first second : List Instruction) :
    generated (first ++ second) = generated first ++ generated second :=
  List.filter_append _ _

end Instruction

/-! ## Carrying out instructions -/

/-- What each heater is set to. -/
abbrev Heaters := Heater → Double

namespace Heaters
open Instruction

/-- No heater is on. -/
def off : Heaters := fun _ => 0

/-- An instruction is carried out.  A command for a heater sets it to the number behind its letter.
What a caller's own line does is not known. -/
def step (own : String → Heaters → Heaters) (heaters : Heaters) (instruction : Instruction) :
    Heaters :=
  match instruction with
  | .verbatim line => own line heaters
  | other => fun heater =>
    if other.sets heater then (other.fieldValue? .s).getD (heaters heater) else heaters heater

/-- Some instructions are carried out one after another. -/
def run (own : String → Heaters → Heaters) (heaters : Heaters) (program : List Instruction) :
    Heaters :=
  program.foldl (step own) heaters

variable {own : String → Heaters → Heaters}

theorem run_append (heaters : Heaters) (first second : List Instruction) :
    run own heaters (first ++ second) = run own (run own heaters first) second :=
  List.foldl_append

/-- A comment or a move leaves the heaters as they are. -/
theorem step_of_isMotion (own : String → Heaters → Heaters) (heaters : Heaters)
    {instruction : Instruction} (h : instruction.IsMotion) :
    step own heaters instruction = heaters := by
  funext heater
  have hsets := h.sets_eq_false heater
  rcases h with ⟨text, rfl⟩ | ⟨target, note, rfl⟩
  · rfl
  · exact if_neg (by simp [hsets])

/-- So do any number of them. -/
theorem run_of_isMotion (heaters : Heaters) {program : List Instruction}
    (h : ∀ instruction ∈ program, instruction.IsMotion) : run own heaters program = heaters := by
  induction program with
  | nil => rfl
  | cons instruction program ih =>
    have hfirst := step_of_isMotion own heaters (h instruction List.mem_cons_self)
    have hrest := ih fun other hother => h other (List.mem_cons_of_mem _ hother)
    rw [run, List.foldl_cons, hfirst]
    exact hrest

theorem run_header (heaters : Heaters) (settings : Thermoplastic) :
    run own heaters (Technique.thermoplastic settings).header = settings.temperature := by
  funext heater
  cases heater <;> rfl

theorem run_footer (heaters : Heaters) (settings : Thermoplastic) :
    run own heaters (Technique.thermoplastic settings).footer = off := by
  funext heater
  cases heater <;> rfl

end Heaters

/-! ## Whole programs -/

/-- A program that sets no heater and feeds nothing.  A header of its own still resets what has been
fed. -/
structure RunsCold (ownHeader : List String) (program : List Instruction) : Prop where
  sets : ∀ instruction ∈ program, ∀ heater, instruction.sets heater = false
  hasField_e : program.filter (·.hasField .e) =
    if ownHeader.isEmpty then [Instruction.resetExtrusion] else []

/-- A program that is heated while it goes along some paths. -/
structure RunsHot (settings : Thermoplastic) (ownHeader : List String) (paths : List Path)
    (body program : List Instruction) : Prop where
  /-- No heater is set between the header and the footer. -/
  sets_body : ∀ instruction ∈ body, ∀ heater, instruction.sets heater = false
  /-- Each heater is set once in the header, unless that is the caller's, and once in the footer. -/
  sets_program : ∀ heater, (program.filter (·.sets heater)).map Instruction.fields =
    (if ownHeader.isEmpty then [[.plain .s (settings.temperature heater)]] else []) ++
      [[.plain .s 0]]
  /-- Without a header of the caller's, each heater is set once before the first move. -/
  first : ownHeader.isEmpty = true → (∃ instruction ∈ program, instruction.isMove = true) →
    ∀ heater, ((program.takeWhile (!·.isMove)).filter (·.sets heater)).map Instruction.fields =
      [[.plain .s (settings.temperature heater)]]
  /-- The last command for each heater switches it off, and no move comes after it. -/
  last : ∀ heater, ∃ before command behind, program = before ++ command :: behind ∧
    command.sets heater = true ∧ command.fields = [.plain .s 0] ∧
    ∀ instruction ∈ behind, instruction.sets heater = false ∧ instruction.isMove = false
  /-- Exactly the moves to the second and later points of the paths feed. -/
  follows : ∃ blocks, body = blocks.flatten ∧
    List.Forall₂ (Technique.thermoplastic settings).Follows paths blocks
  countP_body : body.countP (·.hasField .e) = (paths.map fun path => path.length - 1).sum
  hasField_e : program.filter (·.hasField .e) =
    (if ownHeader.isEmpty then [Instruction.resetExtrusion] else []) ++
      body.filter (·.hasField .e)

namespace Technique
open Instruction
variable {technique : Technique}

/-- Of the moves to some points, all feed or none does. -/
theorem countP_of_forall₂ {feeds : Bool} {points : List Point} {along : List Instruction}
    (h : List.Forall₂ (fun point instruction => instruction.GoesTo point ∧
      instruction.hasField .e = feeds) points along) :
    along.countP (·.hasField .e) = if feeds then points.length else 0 := by
  induction h with
  | nil => cases feeds <;> rfl
  | cons hmove _ ih =>
    rw [List.countP_cons, ih, hmove.2, List.length_cons]
    cases feeds <;> rfl

/-- For a path there are as many instructions that feed as there are points after the first. -/
theorem Follows.countP_eq {path : Path} {block : List Instruction}
    (h : technique.Follows path block) :
    block.countP (·.hasField .e) =
      if technique.extrusionMultiplier?.isSome then path.length - 1 else 0 := by
  cases h with
  | nil => simp
  | cons happroach halong hlift =>
    have hfirst := List.countP_eq_zero.mpr fun instruction hmem =>
      Bool.eq_false_iff.mp (happroach instruction hmem)
    have hlast := List.countP_eq_zero.mpr fun instruction hmem =>
      Bool.eq_false_iff.mp (hlift instruction hmem)
    rw [List.countP_append, List.countP_append, hfirst, hlast, countP_of_forall₂ halong,
      Nat.zero_add, Nat.add_zero]
    rfl

theorem countP_motionFrom (technique : Technique) (total : Double) (paths : List Path) :
    (technique.motionFrom total paths).countP (·.hasField .e) =
      if technique.extrusionMultiplier?.isSome then (paths.map fun path => path.length - 1).sum
      else 0 := by
  induction paths generalizing total with
  | nil => simp [motionFrom]
  | cons path rest ih =>
    rw [motionFrom, List.countP_append, ih, (technique.follows_block total path).countP_eq,
      List.map_cons, List.sum_cons]
    split <;> rfl

/-- The caller's own lines left out, a program is its body between the header and the footer of the
technique. -/
theorem generated_assemble (technique : Technique) (ownHeader : List String) (paths : List Path) :
    generated (technique.assemble ownHeader (Toolpath.motion technique paths)) =
      (if ownHeader.isEmpty then technique.header else []) ++
        Toolpath.motion technique paths ++ technique.footer := by
  have hheader : generated technique.header = technique.header := by cases technique <;> rfl
  have hfooter : generated technique.footer = technique.footer := by cases technique <;> rfl
  have hbody : generated (Toolpath.motion technique paths) = Toolpath.motion technique paths := by
    refine List.filter_eq_self.mpr fun instruction h => ?_
    rw [(isMotion_of_mem_motionFrom h).isVerbatim_eq_false]
    rfl
  rw [assemble, generated_append, generated_append, hbody, hfooter, headerOr]
  split
  · rw [hheader]
  · have hown : generated (ownHeader.map .verbatim) = [] := by
      simp [generated, isVerbatim]
    rw [hown]

/-- The commands for a heater are those of the header, if it is not the caller's, and the footer. -/
theorem filter_sets_assemble (technique : Technique) (ownHeader : List String) (paths : List Path)
    (heater : Heater) :
    (generated (technique.assemble ownHeader (Toolpath.motion technique paths))).filter
        (·.sets heater) =
      (if ownHeader.isEmpty then technique.header.filter (·.sets heater) else []) ++
        technique.footer.filter (·.sets heater) := by
  have hbody : (Toolpath.motion technique paths).filter (·.sets heater) = [] := by
    refine List.filter_eq_nil_iff.mpr fun instruction h => ?_
    simp [(isMotion_of_mem_motionFrom h).sets_eq_false heater]
  rw [generated_assemble, List.filter_append, List.filter_append, hbody, List.append_nil]
  split <;> rfl

/-- Apart from the body, only the header resets what has been fed. -/
theorem filter_hasField_e_assemble (technique : Technique) (ownHeader : List String)
    (paths : List Path) :
    (generated (technique.assemble ownHeader (Toolpath.motion technique paths))).filter
        (·.hasField .e) =
      (if ownHeader.isEmpty then [resetExtrusion] else []) ++
        (Toolpath.motion technique paths).filter (·.hasField .e) := by
  have hheader : technique.header.filter (·.hasField .e) = [resetExtrusion] := by
    cases technique <;> rfl
  have hfooter : technique.footer.filter (·.hasField .e) = [] := by cases technique <;> rfl
  rw [generated_assemble, List.filter_append, List.filter_append, hfooter, List.append_nil]
  split
  · rw [hheader]
  · rfl

theorem runsCold_assemble (h : technique.mode ≠ .thermoplastic) (ownHeader : List String)
    (paths : List Path) :
    RunsCold ownHeader
      (generated (technique.assemble ownHeader (Toolpath.motion technique paths))) := by
  constructor
  · intro instruction hinstruction heater
    have hheader : technique.header.filter (·.sets heater) = [] := by
      cases technique with
      | thermoplastic settings => exact absurd rfl h
      | paste settings => cases heater <;> rfl
      | motion settings => cases heater <;> rfl
    have hfooter : technique.footer.filter (·.sets heater) = [] := by
      cases technique with
      | thermoplastic settings => exact absurd rfl h
      | paste settings => cases heater <;> rfl
      | motion settings => cases heater <;> rfl
    have hall := filter_sets_assemble technique ownHeader paths heater
    rw [hheader, hfooter, List.append_nil, ite_self] at hall
    exact Bool.eq_false_iff.mpr (List.filter_eq_nil_iff.mp hall instruction hinstruction)
  · have hcount := technique.countP_motionFrom 0 paths
    rw [extrusionMultiplier?_eq_none h, Option.isSome_none, if_neg Bool.false_ne_true,
      List.countP_eq_zero] at hcount
    rw [filter_hasField_e_assemble, Toolpath.motion, List.filter_eq_nil_iff.mpr hcount,
      List.append_nil]

/-- What comes before the first item of a kind, where the first list already has such an item. -/
theorem takeWhile_append_of_exists {α : Type} {p : α → Bool} {first second : List α}
    (h : ∃ item ∈ first, p item = false) :
    (first ++ second).takeWhile p = first.takeWhile p := by
  induction first with
  | nil =>
    obtain ⟨item, hitem, -⟩ := h
    cases hitem
  | cons head first ih =>
    rw [List.cons_append, List.takeWhile_cons, List.takeWhile_cons]
    by_cases hhead : p head = true
    · rw [if_pos hhead, if_pos hhead, ih]
      obtain ⟨item, hitem, hfalse⟩ := h
      rcases List.mem_cons.mp hitem with rfl | hitem
      · rw [hhead] at hfalse
        cases hfalse
      · exact ⟨item, hitem, hfalse⟩
    · rw [if_neg hhead, if_neg hhead]

variable (settings : Thermoplastic)

/-- No instruction of a header or of a footer moves the tool in a straight line. -/
theorem isMove_eq_false_of_mem_header {instruction : Instruction}
    (h : instruction ∈ (thermoplastic settings).header) : instruction.isMove = false := by
  simp only [header, heatersOn, heaterCommands, List.cons_append, List.nil_append, List.mem_cons,
    List.not_mem_nil, or_false] at h
  rcases h with rfl | rfl | rfl | rfl | rfl <;> rfl

theorem isMove_eq_false_of_mem_footer {instruction : Instruction}
    (h : instruction ∈ (thermoplastic settings).footer) : instruction.isMove = false := by
  simp only [footer, heatersOff, heaterCommands, List.cons_append, List.nil_append, List.mem_cons,
    List.not_mem_nil, or_false] at h
  rcases h with rfl | rfl | rfl | rfl | rfl | rfl <;> rfl

/-- The footer switches each heater off by one command. -/
theorem exists_filter_sets_footer (heater : Heater) : ∃ command : Instruction,
    (thermoplastic settings).footer.filter (·.sets heater) = [command] ∧
      command.fields = [.plain .s 0] := by
  cases heater <;> exact ⟨_, rfl, rfl⟩

theorem runsHot_assemble (ownHeader : List String) (paths : List Path) :
    RunsHot settings ownHeader paths (Toolpath.motion (.thermoplastic settings) paths)
      (generated ((thermoplastic settings).assemble ownHeader
        (Toolpath.motion (.thermoplastic settings) paths))) := by
  have hprogram := (thermoplastic settings).generated_assemble ownHeader paths
  have hbody : ∀ instruction ∈ Toolpath.motion (.thermoplastic settings) paths,
      instruction.IsMotion := fun _ h => isMotion_of_mem_motionFrom h
  have hheader (heater : Heater) :
      ((thermoplastic settings).header.filter (·.sets heater)).map Instruction.fields =
        [[.plain .s (settings.temperature heater)]] := by
    cases heater <;> rfl
  constructor
  case sets_body => exact fun instruction h heater => (hbody instruction h).sets_eq_false heater
  case sets_program =>
    intro heater
    obtain ⟨command, hfooter, hfields⟩ := exists_filter_sets_footer settings heater
    rw [filter_sets_assemble, hfooter, List.map_append, List.map_singleton, hfields]
    split
    · rw [hheader]
    · rfl
  case first =>
    intro hown hmove heater
    rw [hprogram, if_pos hown, List.append_assoc] at hmove ⊢
    have hfirst : ∀ instruction ∈ (thermoplastic settings).header,
        (!instruction.isMove) = true := by
      intro instruction h
      rw [isMove_eq_false_of_mem_header settings h]
      rfl
    -- a move can only stand in the body, so the instructions in front of the first one end there
    have hexists : ∃ instruction ∈ Toolpath.motion (.thermoplastic settings) paths,
        (!instruction.isMove) = false := by
      obtain ⟨instruction, hmem, hmove⟩ := hmove
      rcases List.mem_append.mp hmem with h | h
      · rw [isMove_eq_false_of_mem_header settings h] at hmove
        cases hmove
      rcases List.mem_append.mp h with h | h
      · exact ⟨instruction, h, by rw [hmove]; rfl⟩
      · rw [isMove_eq_false_of_mem_footer settings h] at hmove
        cases hmove
    have hnone : ((Toolpath.motion (.thermoplastic settings) paths).takeWhile
        (!·.isMove)).filter (·.sets heater) = [] := by
      refine List.filter_eq_nil_iff.mpr fun instruction h => ?_
      have hmem := (List.takeWhile_sublist _).subset h
      simp [(hbody instruction hmem).sets_eq_false heater]
    rw [List.takeWhile_append_of_pos hfirst, takeWhile_append_of_exists hexists, List.filter_append,
      hnone, List.append_nil, hheader]
  case last =>
    intro heater
    obtain ⟨command, honly, hfields⟩ := exists_filter_sets_footer settings heater
    obtain ⟨before, behind, hfooter, -, hsets, hbehind⟩ := List.filter_eq_cons_iff.mp honly
    rw [hprogram, hfooter, ← List.append_assoc]
    refine ⟨_, command, behind, rfl, hsets, hfields, fun instruction h => ⟨?_, ?_⟩⟩
    · exact Bool.eq_false_iff.mpr (List.filter_eq_nil_iff.mp hbehind instruction h)
    apply isMove_eq_false_of_mem_footer settings
    rw [hfooter]
    exact List.mem_append_right _ (List.mem_cons_of_mem _ h)
  case follows => exact (thermoplastic settings).follows_motionFrom 0 paths
  case countP_body => exact (thermoplastic settings).countP_motionFrom 0 paths
  case hasField_e => exact (thermoplastic settings).filter_hasField_e_assemble ownHeader paths

/-- **The mode decides what a program heats and feeds.**  A program without a heated technique runs
cold.  A thermoplastic one runs hot: behind its own header the heaters keep their temperatures up to
the footer, and at its end they are off, whatever they were set to before and whatever lines the
caller put in the place of the header. -/
theorem modeGating_assemble (technique : Technique) (ownHeader : List String) (paths : List Path) :
    let body := Toolpath.motion technique paths
    let program := technique.assemble ownHeader body
    (technique.mode ≠ .thermoplastic → RunsCold ownHeader (generated program)) ∧
    ∀ settings, technique = .thermoplastic settings →
      RunsHot settings ownHeader paths body (generated program) ∧
      ∀ own heaters,
        Heaters.run own heaters (technique.header ++ body) = settings.temperature ∧
        Heaters.run own heaters program = Heaters.off := by
  dsimp only
  refine ⟨fun h => runsCold_assemble h ownHeader paths, ?_⟩
  rintro settings rfl
  refine ⟨runsHot_assemble settings ownHeader paths, fun own heaters => ⟨?_, ?_⟩⟩
  · rw [Heaters.run_append, Heaters.run_header]
    exact Heaters.run_of_isMotion _ fun _ h => isMotion_of_mem_motionFrom h
  · rw [assemble, Heaters.run_append, Heaters.run_footer]

/-- A corner and a point by itself. -/
def heatedPaths : List Path := [[⟨0, 0, 0⟩, ⟨3, 0, 0⟩, ⟨3, 4, 0⟩], [⟨1, 1, 1⟩]]

/-- The caller's line makes both heaters hot before the work, and they end switched off. -/
theorem modeGating_assemble_defaults :
    RunsCold [] (generated ((paste Paste.defaults).assemble []
      (Toolpath.motion (.paste Paste.defaults) heatedPaths))) ∧
    RunsHot Thermoplastic.defaults ["M104 S300"] heatedPaths
      (Toolpath.motion (.thermoplastic Thermoplastic.defaults) heatedPaths)
      (generated ((thermoplastic Thermoplastic.defaults).assemble ["M104 S300"]
        (Toolpath.motion (.thermoplastic Thermoplastic.defaults) heatedPaths))) ∧
    Heaters.run (fun _ _ _ => 300) Heaters.off
      ((thermoplastic Thermoplastic.defaults).assemble ["M104 S300"]
        (Toolpath.motion (.thermoplastic Thermoplastic.defaults) heatedPaths)) = Heaters.off := by
  have hcold : (paste Paste.defaults).mode ≠ .thermoplastic := by decide
  obtain ⟨hpaste, -⟩ := modeGating_assemble (paste Paste.defaults) [] heatedPaths
  obtain ⟨-, hhot⟩ :=
    modeGating_assemble (thermoplastic Thermoplastic.defaults) ["M104 S300"] heatedPaths
  obtain ⟨hruns, hoff⟩ := hhot Thermoplastic.defaults rfl
  exact ⟨hpaste hcold, hruns, (hoff (fun _ _ _ => 300) Heaters.off).2⟩

end Technique
end Toolpath
