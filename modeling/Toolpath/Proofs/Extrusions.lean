import Toolpath.Proofs.Overflow
import Toolpath.Proofs.PlainLines
import Mathlib.Data.List.Forall2

/-! # Extrusion in the body of a program

Of the instructions for a path, the moves to its second and later points feed filament, and none of
the others does (`Technique.follows_motionFrom`).  The totals that the moves along some paths carry
are the partial sums of what the segments take (`Technique.extrusions_motionFrom`).  They go on from
the total before the first path; nothing else in the instructions depends on it
(`Technique.map_unfed_motionFrom`).
-/
namespace Toolpath

/-- The field with a zero in place of the total that it may hold. -/
def Field.unfed (field : Field) : Field :=
  if field.letter = .e then { field with value := 0 } else field

namespace Instruction

/-- The totals that some instructions carry, in order. -/
def extrusions (instructions : List Instruction) : List Double :=
  ((instructions.flatMap fields).filter (·.letter == .e)).map (·.value)

/-- The instruction with a zero in place of each total. -/
def unfed : Instruction → Instruction
  | command code fields note => command code (fields.map Field.unfed) note
  | other => other

/-- Whether an instruction moves the tool in a straight line. -/
def isMove : Instruction → Bool
  | command code _ _ => code == moveCode
  | _ => false

/-- A move that names the three coordinates of a point. -/
structure GoesTo (instruction : Instruction) (point : Point) : Prop where
  isMove : instruction.isMove = true
  x : instruction.fieldValue? .x = some point.x
  y : instruction.fieldValue? .y = some point.y
  z : instruction.fieldValue? .z = some point.z

@[simp] theorem extrusions_append (first second : List Instruction) :
    extrusions (first ++ second) = extrusions first ++ extrusions second := by
  simp [extrusions]

/-- The totals of some instructions are gathered from each of them. -/
theorem extrusions_eq_flatMap (instructions : List Instruction) :
    extrusions instructions = instructions.flatMap fun instruction => extrusions [instruction] := by
  induction instructions with
  | nil => rfl
  | cons instruction rest ih =>
    rw [List.flatMap_cons, ← ih, ← extrusions_append, List.singleton_append]

/-- An instruction has a field for a total exactly where it carries one. -/
theorem hasField_e_iff {instruction : Instruction} :
    instruction.hasField .e = true ↔ extrusions [instruction] ≠ [] := by
  simp [hasField, extrusions]

end Instruction

/-! ## Moves -/

theorem Field.filter_plain (letter : Letter) (h : letter ≠ .e) (value : Option Double) :
    (value.map (plain letter)).toList.filter (·.letter == .e) = [] := by
  cases value with
  | none => rfl
  | some value => simp [plain, h]

theorem Field.map_unfed_plain (letter : Letter) (h : letter ≠ .e) (value : Option Double) :
    (value.map (plain letter)).toList.map unfed = (value.map (plain letter)).toList := by
  cases value with
  | none => rfl
  | some value => simp [plain, unfed, h]

namespace MoveTarget

/-- The one field of a move that may hold a total. -/
theorem filter_fields (target : MoveTarget) :
    target.fields.filter (·.letter == .e) = (target.extrusion.map Field.extrusion).toList := by
  have htotal : ∀ total : Option Double, (total.map Field.extrusion).toList.filter
      (·.letter == .e) = (total.map Field.extrusion).toList := by
    intro total
    cases total <;> rfl
  simp [fields, Field.filter_plain, htotal]

theorem map_unfed_fields (target : MoveTarget) :
    target.fields.map Field.unfed =
      { target with extrusion := target.extrusion.map fun _ => 0 }.fields := by
  have htotal : ∀ total : Option Double, (total.map Field.extrusion).toList.map Field.unfed =
      ((total.map fun _ => 0).map Field.extrusion).toList := by
    intro total
    cases total <;> rfl
  simp only [fields, List.map_append, Field.map_unfed_plain .x (by decide),
    Field.map_unfed_plain .y (by decide), Field.map_unfed_plain .z (by decide),
    Field.map_unfed_plain .f (by decide), htotal]

end MoveTarget

namespace Instruction

@[simp] theorem extrusions_linearMove (target : MoveTarget) (note : Option String) :
    extrusions [linearMove target note] = target.extrusion.toList := by
  have hfields : (linearMove target note).fields = target.fields := rfl
  rw [extrusions, List.flatMap_singleton, hfields, target.filter_fields]
  cases target.extrusion <;> rfl

@[simp] theorem unfed_linearMove (target : MoveTarget) (note : Option String) :
    (linearMove target note).unfed =
      linearMove { target with extrusion := target.extrusion.map fun _ => 0 } note :=
  congrArg (command "G1" · (.ofOption note)) target.map_unfed_fields

theorem hasField_e_linearMove (target : MoveTarget) (note : Option String) :
    (linearMove target note).hasField .e = target.extrusion.isSome := by
  rw [Bool.eq_iff_iff, hasField_e_iff, extrusions_linearMove]
  cases target.extrusion <;> simp

theorem goesTo_moveTo (technique : Technique) (point : Point) (extrusion : Option Double)
    (note : Option String) : (linearMove (technique.moveTo point extrusion) note).GoesTo point :=
  ⟨rfl, rfl, rfl, rfl⟩

end Instruction

namespace Technique
open Instruction
variable {technique : Technique} {multiplier total : Double}

/-! ## The instructions for a path -/

/-- The instructions for a path.  There is one move for each point after the first, and it feeds
exactly if the technique counts what it feeds.  The approach and the lift never feed. -/
inductive Follows (technique : Technique) : Path → List Instruction → Prop
  | nil : Follows technique [] []
  | cons {start : Point} {rest : List Point} {along : List Instruction}
    (happroach : ∀ instruction ∈ technique.approach start, instruction.hasField .e = false)
    (halong : List.Forall₂ (fun point instruction => instruction.GoesTo point ∧
      instruction.hasField .e = technique.extrusionMultiplier?.isSome) rest along)
    (hlift : ∀ instruction ∈ technique.lift (rest.getLastD start),
      instruction.hasField .e = false) :
    Follows technique (start :: rest)
      (technique.approach start ++ along ++ technique.lift (rest.getLastD start))

theorem hasField_e_of_mem_approach {start : Point} {instruction : Instruction}
    (h : instruction ∈ technique.approach start) : instruction.hasField .e = false := by
  simp only [approach, List.mem_cons, List.not_mem_nil, or_false] at h
  rcases h with rfl | rfl | rfl
  · rfl
  · exact hasField_e_linearMove _ _
  · exact hasField_e_linearMove _ _

theorem hasField_e_of_mem_lift {last : Point} {instruction : Instruction}
    (h : instruction ∈ technique.lift last) : instruction.hasField .e = false := by
  simp only [lift, List.mem_cons, List.not_mem_nil, or_false] at h
  rcases h with rfl | rfl
  · rfl
  · exact hasField_e_linearMove _ _

/-- A move has a total exactly if the technique counts what it feeds. -/
theorem isSome_of_mem_targets {path : Path} {target : Point × Option Double}
    (h : target ∈ technique.targets total path) :
    target.2.isSome = technique.extrusionMultiplier?.isSome := by
  unfold targets at h
  split at h
  · rename_i multiplier hmultiplier
    obtain ⟨fed, -, hfed⟩ := List.mem_map.mp (List.of_mem_zip h).2
    rw [← hfed, hmultiplier]
    rfl
  · rename_i hnone
    obtain ⟨point, -, rfl⟩ := List.mem_map.mp h
    rw [hnone]

/-- There is one move for each point of a path after the first. -/
theorem forall₂_moves (technique : Technique) (total : Double) (path : Path) :
    List.Forall₂ (fun point instruction => instruction.GoesTo point ∧
      instruction.hasField .e = technique.extrusionMultiplier?.isSome)
      path.tail (technique.moves total path) := by
  have hpoints : (technique.targets total path).map Prod.fst = path.tail := map_fst_targets
  rw [moves_eq_map, ← hpoints, List.forall₂_map_left_iff, List.forall₂_map_right_iff,
    List.forall₂_same]
  intro target htarget
  refine ⟨goesTo_moveTo technique target.1 target.2 none, ?_⟩
  rw [hasField_e_linearMove]
  exact isSome_of_mem_targets htarget

theorem follows_block (technique : Technique) (total : Double) (path : Path) :
    technique.Follows path (technique.block total path) := by
  cases path with
  | nil => exact .nil
  | cons start rest =>
    exact .cons (fun _ h => hasField_e_of_mem_approach h)
      (technique.forall₂_moves total (start :: rest)) (fun _ h => hasField_e_of_mem_lift h)

/-- **The body of a program** is the instructions for one path after another. -/
theorem follows_motionFrom (technique : Technique) (total : Double) (paths : List Path) :
    ∃ blocks, technique.motionFrom total paths = blocks.flatten ∧
      List.Forall₂ technique.Follows paths blocks := by
  induction paths generalizing total with
  | nil => exact ⟨[], rfl, .nil⟩
  | cons path rest ih =>
    obtain ⟨blocks, hblocks, hfollows⟩ := ih (technique.totalAfter total path)
    refine ⟨technique.block total path :: blocks, ?_, .cons (technique.follows_block _ _) hfollows⟩
    rw [motionFrom, hblocks, List.flatten_cons]

/-! ## Totals -/

theorem extrusions_eq_nil {instructions : List Instruction}
    (h : ∀ instruction ∈ instructions, instruction.hasField .e = false) :
    extrusions instructions = [] := by
  rw [extrusions_eq_flatMap, List.flatMap_eq_nil_iff]
  intro instruction hinstruction
  by_contra hne
  have hfield := hasField_e_iff.mpr hne
  rw [h instruction hinstruction] at hfield
  cases hfield

theorem extrusions_moves (h : technique.extrusionMultiplier? = some multiplier) (total : Double)
    (path : Path) :
    extrusions (technique.moves total path) = extrusionTotals multiplier total path := by
  have htotals : (technique.targets total path).map Prod.snd =
      (extrusionTotals multiplier total path).map some := by
    simp only [targets, h]
    exact List.map_snd_zip (by simp)
  have hmove : ∀ target : Point × Option Double,
      extrusions [linearMove (technique.moveTo target.1 target.2) none] = target.2.toList :=
    fun target => extrusions_linearMove _ _
  rw [moves_eq_map, extrusions_eq_flatMap, List.flatMap_map]
  simp only [hmove]
  rw [← List.flatMap_map Prod.snd, htotals, List.flatMap_map]
  simp

theorem extrusions_block (h : technique.extrusionMultiplier? = some multiplier) (total : Double)
    (path : Path) :
    extrusions (technique.block total path) = extrusionTotals multiplier total path := by
  cases path with
  | nil => rfl
  | cons start rest =>
    rw [block, extrusions_append, extrusions_append, extrusions_moves h,
      extrusions_eq_nil fun _ => hasField_e_of_mem_approach,
      extrusions_eq_nil fun _ => hasField_e_of_mem_lift, List.nil_append, List.append_nil]

/-- **The totals that are written** are the partial sums of what the segments take. -/
theorem extrusions_motionFrom (h : technique.extrusionMultiplier? = some multiplier)
    (total : Double) (paths : List Path) :
    extrusions (technique.motionFrom total paths) = writtenTotals multiplier total paths := by
  induction paths generalizing total with
  | nil => rfl
  | cons path rest ih =>
    rw [motionFrom, extrusions_append, extrusions_block h, ih, writtenTotals_cons, totalAfter, h]

/-- The total after some paths is the last one that was written for them. -/
theorem foldl_totalAfter (h : technique.extrusionMultiplier? = some multiplier) (total : Double)
    (paths : List Path) :
    paths.foldl technique.totalAfter total =
      (writtenTotals multiplier total paths).getLastD total := by
  induction paths generalizing total with
  | nil => rfl
  | cons path rest ih =>
    rw [List.foldl_cons, ih, totalAfter, h, writtenTotals_cons]
    simp only [List.getLastD_eq_getLast?, List.getLast?_append]
    cases (writtenTotals multiplier _ rest).getLast? <;> simp

/-! ## What does not depend on the total -/

/-- Without their totals, the moves go to the points of the path and nothing more. -/
theorem map_unfed_moves (technique : Technique) (total : Double) (path : Path) :
    (technique.moves total path).map unfed = path.tail.map fun point =>
      linearMove (technique.moveTo point (technique.extrusionMultiplier?.map fun _ => 0)) none := by
  have hpoints : (technique.targets total path).map Prod.fst = path.tail := map_fst_targets
  rw [moves_eq_map, ← hpoints, List.map_map, List.map_map]
  refine List.map_congr_left fun target htarget => ?_
  have hfed := isSome_of_mem_targets htarget
  have hzero : (target.2.map fun _ => (0 : Double)) =
      technique.extrusionMultiplier?.map fun _ => 0 := by
    cases hmultiplier : technique.extrusionMultiplier? with
    | none =>
      rw [hmultiplier, Option.isSome_none, Option.isSome_eq_false_iff,
        Option.isNone_iff_eq_none] at hfed
      rw [hfed, Option.map_none]
    | some multiplier =>
      rw [hmultiplier, Option.isSome_some, Option.isSome_iff_exists] at hfed
      obtain ⟨fed, hfed⟩ := hfed
      rw [hfed, Option.map_some, Option.map_some]
  simp only [Function.comp_apply, unfed_linearMove, moveTo, hzero]

theorem map_unfed_block (technique : Technique) (total other : Double) (path : Path) :
    (technique.block total path).map unfed = (technique.block other path).map unfed := by
  cases path with
  | nil => rfl
  | cons start rest => simp only [block, List.map_append, map_unfed_moves]

/-- **Nothing but the totals** depends on the total that a body starts from. -/
theorem map_unfed_motionFrom (technique : Technique) (total other : Double) (paths : List Path) :
    (technique.motionFrom total paths).map unfed =
      (technique.motionFrom other paths).map unfed := by
  induction paths generalizing total other with
  | nil => rfl
  | cons path rest ih =>
    simp only [motionFrom, List.map_append]
    rw [map_unfed_block technique total other, ih]

theorem extrusionMultiplier?_eq_none (h : technique.mode ≠ .thermoplastic) :
    technique.extrusionMultiplier? = none := by
  cases technique with
  | thermoplastic settings => exact absurd rfl h
  | paste settings => rfl
  | motion settings => rfl

/-- Where filament is not counted, the body does not depend on any total. -/
theorem motionFrom_eq_of_none (h : technique.extrusionMultiplier? = none) (total other : Double)
    (paths : List Path) : technique.motionFrom total paths = technique.motionFrom other paths := by
  induction paths generalizing total other with
  | nil => rfl
  | cons path rest ih =>
    have hblock : technique.block total path = technique.block other path := by
      cases path with
      | nil => rfl
      | cons start others => simp only [block, moves, h]
    rw [motionFrom, motionFrom, hblock, ih _ (technique.totalAfter other path)]

end Technique
end Toolpath
