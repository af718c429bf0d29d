import Toolpath.Path
import Toolpath.Proofs.Coordinates
import Mathlib.Data.List.Forall2

/-! # Paths that have been read

A path that is read from loose geometry has at least one point, and every coordinate of it is finite
and not changed by rounding (`Path.isRounded_of_ofValue?`).  A path of that kind, handed back as a
value, is read as itself (`Path.ofValue?_toJson`).
-/
namespace Toolpath

/-! ## Traversals that may fail -/

/-- A traversal that may fail gives some results exactly if they are, in order, what each item
gives. -/
theorem mapM_eq_some_iff_forall₂ {α β : Type} {read : α → Option β} {items : List α}
    {results : List β} :
    items.mapM read = some results ↔
      List.Forall₂ (fun item result => read item = some result) items results := by
  constructor
  · intro h
    induction items generalizing results with
    | nil =>
      cases h
      exact .nil
    | cons item items ih =>
      rw [List.mapM_cons] at h
      obtain ⟨first, hfirst, h⟩ := Option.bind_eq_some_iff.mp h
      obtain ⟨others, hothers, h⟩ := Option.bind_eq_some_iff.mp h
      cases h
      exact .cons hfirst (ih hothers)
  · intro h
    induction h with
    | nil => rfl
    | cons hfirst _ ih =>
      rw [List.mapM_cons, hfirst, ih]
      rfl

/-- What is written item by item is read item by item. -/
theorem mapM_map_eq_some {α β γ : Type} {read : β → Option γ} {write : α → β} {meaning : α → γ}
    {items : List α} (h : ∀ item ∈ items, read (write item) = some (meaning item)) :
    (items.map write).mapM read = some (items.map meaning) := by
  induction items with
  | nil => rfl
  | cons item items ih =>
    rw [List.map_cons, List.mapM_cons, h item List.mem_cons_self,
      ih fun other hother => h other (List.mem_cons_of_mem _ hother)]
    rfl

/-! ## Coordinates -/

/-- A finite double that rounding leaves as it is. -/
structure Double.IsRounded (x : Double) : Prop where
  isFinite : x.isFinite = true
  round_eq : roundCoordinate x = x

theorem Double.isRounded_roundCoordinate {x : Double} (h : x.isFinite = true) :
    (roundCoordinate x).IsRounded :=
  ⟨(isCoordinate_roundCoordinate h).isFinite, roundCoordinate_roundCoordinate x⟩

theorem Double.IsRounded.isCoordinate {x : Double} (h : x.IsRounded) : x.IsCoordinate := by
  rw [← h.round_eq]
  exact isCoordinate_roundCoordinate h.isFinite

/-- A point whose coordinates have been rounded. -/
structure Point.IsRounded (point : Point) : Prop where
  x : point.x.IsRounded
  y : point.y.IsRounded
  z : point.z.IsRounded

/-- A path of at least one point whose points have been rounded. -/
structure Path.IsRounded (path : Path) : Prop where
  ne_nil : path ≠ []
  isRounded : ∀ point ∈ path, point.IsRounded

namespace Point

theorem isFinite_of_coordinate? {value : Value} {x : Double} (h : coordinate? value = some x) :
    x.isFinite = true := by
  unfold coordinate? at h
  split at h
  · split at h
    · rename_i hfinite
      cases h
      exact hfinite
    · cases h
  · cases h

theorem coordinate?_number {x : Double} (h : x.isFinite = true) :
    coordinate? (.number x) = some x := by
  rw [coordinate?, if_pos h]

/-- What is read as a point has been rounded. -/
theorem isRounded_of_ofValue? {value : Value} {point : Point} (h : ofValue? value = some point) :
    point.IsRounded := by
  unfold ofValue? at h
  obtain ⟨⟨x, y, z⟩, -, h⟩ := Option.bind_eq_some_iff.mp h
  obtain ⟨x, hx, h⟩ := Option.bind_eq_some_iff.mp h
  obtain ⟨y, hy, h⟩ := Option.bind_eq_some_iff.mp h
  obtain ⟨z, hz, h⟩ := Option.bind_eq_some_iff.mp h
  cases h
  exact ⟨Double.isRounded_roundCoordinate (isFinite_of_coordinate? hx),
    Double.isRounded_roundCoordinate (isFinite_of_coordinate? hy),
    Double.isRounded_roundCoordinate (isFinite_of_coordinate? hz)⟩

/-- A rounded point is read as itself. -/
theorem ofValue?_toJson {point : Point} (h : point.IsRounded) :
    ofValue? (.ofJson point.toJson) = some point := by
  obtain ⟨x, y, z⟩ := point
  simp only [toJson, Value.ofJson, Value.ofJsonItems, ofValue?, coordinates?,
    coordinate?_number h.x.isFinite, coordinate?_number h.y.isFinite,
    coordinate?_number h.z.isFinite, bind, Option.bind_some, pure, h.x.round_eq, h.y.round_eq,
    h.z.round_eq]

end Point

namespace Path

/-- What is read as a path has been rounded. -/
theorem isRounded_of_ofValue? {value : Value} {path : Path} (h : ofValue? value = some path) :
    path.IsRounded := by
  unfold ofValue? at h
  obtain ⟨entries, -, h⟩ := Option.bind_eq_some_iff.mp h
  split at h
  · cases h
  · rename_i hempty
    have hpoints := mapM_eq_some_iff_forall₂.mp h
    constructor
    · rintro rfl
      exact hempty (List.isEmpty_iff.mpr (List.forall₂_nil_right_iff.mp hpoints))
    · have hread : List.Forall₂ (fun point entry => Point.ofValue? entry = some point) path
          entries := hpoints.flip
      have hrounded := hread.imp fun _ _ h => And.intro (Point.isRounded_of_ofValue? h) h
      exact ((List.forall₂_and_left _ _).mp hrounded).1

/-- A rounded path is read as itself. -/
theorem ofValue?_toJson {path : Path} (h : path.IsRounded) :
    ofValue? (.ofJson path.toJson) = some path := by
  have hentries : (path.map fun point => Value.ofJson point.toJson).isEmpty = false := by
    rw [List.isEmpty_eq_false_iff, Ne, List.map_eq_nil_iff]
    exact h.ne_nil
  have hpoints : (path.map fun point => Value.ofJson point.toJson).mapM Point.ofValue? =
      some (path.map fun point => point) :=
    mapM_map_eq_some fun point hpoint => Point.ofValue?_toJson (h.isRounded point hpoint)
  rw [toJson, Value.ofJson, Value.ofJsonItems_eq_map, List.map_map, ofValue?_list]
  change (if (path.map fun point => Value.ofJson point.toJson).isEmpty = true then none
    else (path.map fun point => Value.ofJson point.toJson).mapM Point.ofValue?) = some path
  rw [hentries, if_neg Bool.false_ne_true, hpoints, List.map_id']

/-- Paths of some geometry have been rounded. -/
theorem isRounded_of_mem_ofValues {geometry : List Value} {path : Path}
    (h : path ∈ ofValues geometry) : path.IsRounded := by
  obtain ⟨value, -, hread⟩ := List.mem_filterMap.mp h
  exact isRounded_of_ofValue? hread

/-- **Rounded paths handed back are read as themselves.** -/
theorem ofValues_toJson {paths : List Path} (h : ∀ path ∈ paths, path.IsRounded) :
    ofValues (paths.map fun path => .ofJson path.toJson) = paths := by
  induction paths with
  | nil => rfl
  | cons path paths ih =>
    rw [ofValues, List.map_cons,
      List.filterMap_cons_some (ofValue?_toJson (h path List.mem_cons_self)), ← ofValues,
      ih fun other hother => h other (List.mem_cons_of_mem _ hother)]

end Path
end Toolpath
