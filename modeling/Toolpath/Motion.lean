import Toolpath.Instruction.Basic
import Toolpath.Path
import Toolpath.Technique

/-! # Motion

The instructions that take the tool along a list of paths.  Each path is a block of its own: the
tool comes in above its first point, goes down, follows the points, and is lifted from the last one.
A thermoplastic technique also feeds filament; its total runs on from one path to the next
(`extrusionTotals`), and only the moves along a path carry it.
-/
namespace Toolpath

/-- The feed rate of the moves that keep clear of the work. -/
def rapidFeedRate : Double := 2000

/-- The filament fed by the time each point after the first is reached. -/
def extrusionTotals (multiplier total : Double) : Path → List Double
  | a :: b :: rest =>
    let next := total + a.distance b * multiplier
    next :: extrusionTotals multiplier next (b :: rest)
  | _ => []

namespace Technique

/-- The filament fed by the end of a path. -/
def totalAfter (technique : Technique) (total : Double) (path : Path) : Double :=
  match technique.extrusionMultiplier? with
  | some multiplier => (extrusionTotals multiplier total path).getLastD total
  | none => total

/-- The move to a point at the feed rate of the work. -/
def moveTo (technique : Technique) (point : Point) (extrusion : Option Double) : MoveTarget :=
  { x := point.x, y := point.y, z := point.z, extrusion, feedRate := technique.feedRate }

/-- The moves to the points of a path after the first. -/
def moves (technique : Technique) (total : Double) (path : Path) : List Instruction :=
  match technique.extrusionMultiplier? with
  | some multiplier =>
    path.tail.zipWith (fun point total => .linearMove (technique.moveTo point (some total)) none)
      (extrusionTotals multiplier total path)
  | none => path.tail.map fun point => .linearMove (technique.moveTo point none) none

/-- The height in which the tool travels above a point. -/
def clearanceAbove (technique : Technique) (point : Point) : Double :=
  point.z + technique.clearanceHeight

/-- The tool comes in above a point and goes down to it. -/
def approach (technique : Technique) (start : Point) : List Instruction :=
  let above : MoveTarget :=
    { x := start.x, y := start.y, z := technique.clearanceAbove start, feedRate := rapidFeedRate }
  [.comment "Start path", .linearMove above (some "move above start"),
    .linearMove (technique.moveTo start none) (some "descend to start")]

/-- The tool is lifted from a point. -/
def lift (technique : Technique) (last : Point) : List Instruction :=
  let target : MoveTarget := { z := technique.clearanceAbove last, feedRate := rapidFeedRate }
  [.comment "End path", .linearMove target (some "lift tool")]

/-- The instructions for one path, with the filament fed before it. -/
def block (technique : Technique) (total : Double) : Path → List Instruction
  | [] => []
  | start :: rest =>
    technique.approach start ++ technique.moves total (start :: rest) ++
      technique.lift (rest.getLastD start)

/-- The instructions for some paths, with the filament fed before them. -/
def motionFrom (technique : Technique) (total : Double) : List Path → List Instruction
  | [] => []
  | path :: rest =>
    technique.block total path ++ technique.motionFrom (technique.totalAfter total path) rest

/-- Paths taken one after another: the later ones start from the filament the earlier ones fed. -/
theorem motionFrom_append (technique : Technique) (total : Double) (first second : List Path) :
    technique.motionFrom total (first ++ second) =
      technique.motionFrom total first ++
        technique.motionFrom (first.foldl technique.totalAfter total) second := by
  induction first generalizing total with
  | nil => rfl
  | cons path rest ih =>
    rw [List.cons_append, motionFrom, ih, motionFrom, List.foldl_cons, List.append_assoc]

end Technique

/-- The instructions that take the tool along some paths. -/
def motion (technique : Technique) (paths : List Path) : List Instruction :=
  technique.motionFrom 0 paths

@[simp] theorem length_extrusionTotals (multiplier total : Double) (path : Path) :
    (extrusionTotals multiplier total path).length = path.length - 1 := by
  match path with
  | [] => rfl
  | [_] => rfl
  | a :: b :: rest =>
    have ih := length_extrusionTotals multiplier (total + a.distance b * multiplier) (b :: rest)
    simp [extrusionTotals, ih]

end Toolpath
