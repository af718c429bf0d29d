import Toolpath.Point

/-! # Paths

The points of one continuous motion of the tool, in order.  Loose geometry is read entry by entry:
an entry in which anything is not a point is no path and is left out.
-/
namespace Toolpath

abbrev Path := List Point

/-- Two points that follow each other in a path. -/
abbrev Segment := Point × Point

namespace Path

/-- The entries of a list, or of the list that a curve converts to.  A list of nothing but numbers
is one point and no path. -/
def entries? : Value → Option (List Value)
  | .list entries => if !entries.isEmpty && entries.all Value.isNumber then none else some entries
  | .curve (some (.list entries)) => some entries
  | _ => none

/-- The path that a value denotes: at least one entry, and every entry a point. -/
def ofValue? (value : Value) : Option Path := do
  let entries ← entries? value
  if entries.isEmpty then none else entries.mapM Point.ofValue?

/-- A number is no point, so a list of numbers has no points. -/
theorem mapM_ofValue?_numbers {entries : List Value} (hne : entries ≠ [])
    (h : entries.all Value.isNumber = true) : entries.mapM Point.ofValue? = none := by
  obtain ⟨entry, rest, rfl⟩ := List.exists_cons_of_ne_nil hne
  rw [List.all_cons, Bool.and_eq_true] at h
  have hentry : Point.ofValue? entry = none := by
    cases entry with
    | number x => rfl
    | _ => cases h.1
  rw [List.mapM_cons, hentry]
  rfl

/-- That a list of numbers is refused before anything in it is read makes no difference. -/
theorem ofValue?_list (entries : List Value) :
    ofValue? (.list entries) =
      if entries.isEmpty then none else entries.mapM Point.ofValue? := by
  rw [ofValue?, entries?]
  by_cases hbare : (!entries.isEmpty && entries.all Value.isNumber) = true
  · rw [if_pos hbare]
    rw [Bool.and_eq_true, Bool.not_eq_true', List.isEmpty_eq_false_iff] at hbare
    rw [mapM_ofValue?_numbers hbare.1 hbare.2, ite_self]
    rfl
  · rw [if_neg hbare]
    rfl

/-- The paths among the entries of some geometry. -/
def ofValues (geometry : List Value) : List Path := geometry.filterMap ofValue?

/-- The segments of a path, in order. -/
def segments (path : Path) : List Segment := path.zip path.tail

def toJson (path : Path) : Json := .list (path.map Point.toJson)

/-- Geometry put together gives the paths of its parts. -/
theorem ofValues_append (first second : List Value) :
    ofValues (first ++ second) = ofValues first ++ ofValues second :=
  List.filterMap_append

end Path

def Segment.toJson (segment : Segment) : Json := Path.toJson [segment.1, segment.2]

end Toolpath
