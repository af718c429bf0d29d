import Toolpath.Proofs.Extrusions

/-! # Travels

Where the tool goes does not depend on what it does there.  Two techniques that work at the same
feed rate and travel in the same height above the work (`Technique.TravelsLike`) take the tool
through the same moves: with the totals struck out, the bodies of their programs are the same,
instruction by instruction.  The totals in turn depend on the extrusion multiplier alone, so no
other parameter of a technique is seen in a body at all (`Technique.map_withoutTotals_motion`).
-/
namespace Toolpath

namespace Instruction

/-- The instruction with every total struck out. -/
def withoutTotals : Instruction → Instruction
  | command code fields note => command code (fields.filter fun field => field.letter ≠ .e) note
  | other => other

/-- Nothing is struck out where no total stands. -/
theorem withoutTotals_eq_self {instruction : Instruction}
    (h : instruction.hasField .e = false) : instruction.withoutTotals = instruction := by
  cases instruction with
  | comment text => rfl
  | verbatim line => rfl
  | command code fields note =>
    have hkept : fields.filter (fun field => field.letter ≠ .e) = fields := by
      rw [List.filter_eq_self]
      intro field hfield
      have hother := List.any_eq_false.mp h field hfield
      simpa using hother
    rw [withoutTotals, hkept]

theorem map_withoutTotals_eq_self {instructions : List Instruction}
    (h : ∀ instruction ∈ instructions, instruction.hasField .e = false) :
    instructions.map withoutTotals = instructions := by
  induction instructions with
  | nil => rfl
  | cons first rest ih =>
    rw [List.map_cons, withoutTotals_eq_self (h first List.mem_cons_self),
      ih fun other hother => h other (List.mem_cons_of_mem _ hother)]

/-- A move whose total is struck out is the same move without one. -/
theorem withoutTotals_linearMove (target : MoveTarget) (note : Option String) :
    (linearMove target note).withoutTotals = linearMove { target with extrusion := none } note := by
  obtain ⟨x, y, z, extrusion, feedRate⟩ := target
  have hfields : (MoveTarget.mk x y z extrusion feedRate).fields.filter
      (fun field => field.letter ≠ .e) = (MoveTarget.mk x y z none feedRate).fields := by
    cases x <;> cases y <;> cases z <;> cases extrusion <;> cases feedRate <;> rfl
  exact congrArg (command "G1" · (.ofOption note)) hfields

end Instruction

namespace Technique
open Instruction
variable {technique other : Technique}

/-- Techniques that work at the same feed rate and travel in the same height. -/
structure TravelsLike (technique other : Technique) : Prop where
  feedRate : technique.feedRate = other.feedRate
  clearanceHeight : technique.clearanceHeight = other.clearanceHeight

namespace TravelsLike
variable (h : technique.TravelsLike other)
include h

theorem moveTo_eq (point : Point) (extrusion : Option Double) :
    technique.moveTo point extrusion = other.moveTo point extrusion := by
  simp only [moveTo, h.feedRate]

theorem clearanceAbove_eq (point : Point) :
    technique.clearanceAbove point = other.clearanceAbove point := by
  simp only [clearanceAbove, h.clearanceHeight]

theorem approach_eq (start : Point) : technique.approach start = other.approach start := by
  simp only [approach, h.clearanceAbove_eq, h.moveTo_eq]

theorem lift_eq (last : Point) : technique.lift last = other.lift last := by
  simp only [lift, h.clearanceAbove_eq]

end TravelsLike

/-! ## Without the totals -/

/-- Without their totals, the moves go to the points of the path and say nothing more. -/
theorem map_withoutTotals_moves (technique : Technique) (total : Double) (path : Path) :
    (technique.moves total path).map withoutTotals =
      path.tail.map fun point => linearMove (technique.moveTo point none) none := by
  have hpoints : (technique.targets total path).map Prod.fst = path.tail := map_fst_targets
  rw [moves_eq_map, ← hpoints, List.map_map, List.map_map]
  apply List.map_congr_left
  intro target _
  exact withoutTotals_linearMove _ _

/-- Without the totals, the instructions for a path depend neither on the mode nor on what was fed
before. -/
theorem TravelsLike.map_withoutTotals_block (h : technique.TravelsLike other)
    (total start : Double) (path : Path) :
    (technique.block total path).map withoutTotals =
      (other.block start path).map withoutTotals := by
  cases path with
  | nil => rfl
  | cons first rest =>
    simp only [block, List.map_append, map_withoutTotals_moves, h.approach_eq, h.lift_eq,
      h.moveTo_eq]

/-- Where filament is not counted, the instructions for a path have no totals. -/
theorem map_withoutTotals_block_eq_self (h : technique.extrusionMultiplier? = none)
    (total : Double) (path : Path) :
    (technique.block total path).map withoutTotals = technique.block total path := by
  cases path with
  | nil => rfl
  | cons first rest =>
    have happroach : (technique.approach first).map withoutTotals = technique.approach first :=
      map_withoutTotals_eq_self fun _ => hasField_e_of_mem_approach
    have hlift : (technique.lift (rest.getLastD first)).map withoutTotals =
        technique.lift (rest.getLastD first) :=
      map_withoutTotals_eq_self fun _ => hasField_e_of_mem_lift
    have hmoves : (technique.moves total (first :: rest)).map withoutTotals =
        technique.moves total (first :: rest) := by
      rw [map_withoutTotals_moves]
      simp only [moves, h]
    simp only [block, List.map_append, happroach, hmoves, hlift]

/-! ## From one path to all of them -/

/-- What two techniques have in common in the instructions for every path, whatever was fed before
it, they have in common in the instructions for all paths. -/
theorem map_motionFrom_congr {view : Instruction → Instruction}
    (hblock : ∀ total start path,
      (technique.block total path).map view = (other.block start path).map view)
    (total start : Double) (paths : List Path) :
    (technique.motionFrom total paths).map view = (other.motionFrom start paths).map view := by
  induction paths generalizing total start with
  | nil => rfl
  | cons path rest ih =>
    rw [motionFrom, motionFrom, List.map_append, List.map_append, hblock total start path,
      ih (technique.totalAfter total path) (other.totalAfter start path)]

theorem map_withoutTotals_motionFrom_eq_self (h : technique.extrusionMultiplier? = none)
    (total : Double) (paths : List Path) :
    (technique.motionFrom total paths).map withoutTotals = technique.motionFrom total paths := by
  induction paths generalizing total with
  | nil => rfl
  | cons path rest ih =>
    rw [motionFrom, List.map_append, map_withoutTotals_block_eq_self h, ih]

/-! ## The totals -/

/-- Techniques of one mode count filament both or neither. -/
theorem map_extrusionMultiplier?_eq (h : technique.mode = other.mode) :
    (technique.extrusionMultiplier?.map fun _ => (0 : Double)) =
      other.extrusionMultiplier?.map fun _ => 0 := by
  cases technique <;> cases other <;> first | rfl | cases h

/-- In one mode, the multiplier is seen in the values of the totals only. -/
theorem TravelsLike.map_unfed_block (h : technique.TravelsLike other)
    (hmode : technique.mode = other.mode) (total start : Double) (path : Path) :
    (technique.block total path).map unfed = (other.block start path).map unfed := by
  cases path with
  | nil => rfl
  | cons first rest =>
    simp only [block, List.map_append, map_unfed_moves, map_extrusionMultiplier?_eq hmode,
      h.approach_eq, h.lift_eq, h.moveTo_eq]

/-- With one multiplier, the totals are the same too. -/
theorem TravelsLike.motionFrom_eq (h : technique.TravelsLike other)
    (hmultiplier : technique.extrusionMultiplier? = other.extrusionMultiplier?) (total : Double)
    (paths : List Path) : technique.motionFrom total paths = other.motionFrom total paths := by
  induction paths generalizing total with
  | nil => rfl
  | cons path rest ih =>
    have hblock : technique.block total path = other.block total path := by
      cases path with
      | nil => rfl
      | cons first others =>
        simp only [block, moves, hmultiplier, h.approach_eq, h.lift_eq, h.moveTo_eq]
    have htotal : technique.totalAfter total path = other.totalAfter total path := by
      simp only [totalAfter, hmultiplier]
    rw [motionFrom, motionFrom, hblock, htotal, ih]

end Technique

open Instruction

/-- **The modes differ in nothing but the totals.**  Of two techniques that travel alike, one that
counts no filament has the body of the other with the totals struck out.  Beyond the feed rate and
the height of travel a body depends on the extrusion multiplier, and then in the values of the
totals only. -/
theorem map_withoutTotals_motion {technique other : Technique} (h : technique.TravelsLike other)
    (paths : List Path) :
    (other.mode ≠ .thermoplastic →
      (motion technique paths).map withoutTotals = motion other paths) ∧
    (technique.mode = other.mode →
      (motion technique paths).map unfed = (motion other paths).map unfed) ∧
    (technique.extrusionMultiplier? = other.extrusionMultiplier? →
      motion technique paths = motion other paths) := by
  refine ⟨?_, ?_, ?_⟩
  · intro hmode
    have hnone := Technique.extrusionMultiplier?_eq_none hmode
    calc (motion technique paths).map withoutTotals
        = (motion other paths).map withoutTotals :=
          Technique.map_motionFrom_congr h.map_withoutTotals_block 0 0 paths
      _ = motion other paths := Technique.map_withoutTotals_motionFrom_eq_self hnone 0 paths
  · intro hmode
    exact Technique.map_motionFrom_congr (h.map_unfed_block hmode) 0 0 paths
  · intro hmultiplier
    exact h.motionFrom_eq hmultiplier 0 paths

/-- A filament melted at the feed rate of a paste. -/
def slowFilament : Technique := .thermoplastic { Thermoplastic.defaults with feedRate := 800 }

/-- A path of three points, an empty one and one of a single point. -/
def travelledPaths : List Path :=
  [[⟨0, 0, 0⟩, ⟨3, 4, 0⟩, ⟨3, 4, 1⟩], [], [⟨7, 7, 7⟩]]

theorem map_withoutTotals_motion_slowFilament :
    slowFilament.TravelsLike (.paste Paste.defaults) ∧
      (extrusions (motion slowFilament travelledPaths)).length = 2 ∧
      (motion slowFilament travelledPaths).map withoutTotals =
        motion (.paste Paste.defaults) travelledPaths := by
  have htravel : slowFilament.TravelsLike (.paste Paste.defaults) := ⟨rfl, rfl⟩
  refine ⟨htravel, by decide +kernel, ?_⟩
  exact (map_withoutTotals_motion htravel travelledPaths).1 (by decide)

end Toolpath
