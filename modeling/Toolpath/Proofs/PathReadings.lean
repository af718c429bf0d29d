import Toolpath.Proofs.RoundedPaths

/-! # What is read as a path

A path is read from a list of entries, whether it is given as it stands or by a curve
(`Path.Lists`).  An entry is a point if it carries three finite numbers, in a list of three or in a
record (`Point.ReadFrom`).  Reading is all or nothing: either there is an entry at all and each of
them is a point, and then the path has these points in their order, or there is no path
(`Path.ofValue?_reads`).  In which of their forms the entries are written, and whether a curve gives
the list, makes no difference.
-/
namespace Toolpath

namespace Point

/-- The three values that an entry carries, whatever they are. -/
inductive Carries : Value → Value → Value → Value → Prop
  | list (x y z : Value) : Carries (.list [x, y, z]) x y z
  | record {fields : List (String × Value)} {x y z : Value}
    (hx : (Value.record fields).field "x" = x) (hy : (Value.record fields).field "y" = y)
    (hz : (Value.record fields).field "z" = z) : Carries (.record fields) x y z

/-- An entry that carries three finite numbers, and the point they are rounded to. -/
inductive ReadFrom : Value → Point → Prop
  | rounded {entry : Value} {x y z : Double}
    (h : Carries entry (.number x) (.number y) (.number z)) (hx : x.isFinite = true)
    (hy : y.isFinite = true) (hz : z.isFinite = true) :
    ReadFrom entry ⟨roundCoordinate x, roundCoordinate y, roundCoordinate z⟩

/-- An entry and the same again, or the same three values in another form. -/
inductive Restates : Value → Value → Prop
  | same (entry : Value) : Restates entry entry
  | form {entry other x y z : Value} (h : Carries entry x y z) (hother : Carries other x y z) :
    Restates entry other

theorem coordinates?_eq_some_iff {entry x y z : Value} :
    coordinates? entry = some (x, y, z) ↔ Carries entry x y z := by
  constructor
  · intro h
    unfold coordinates? at h
    split at h
    · cases h
      exact .list x y z
    · cases h
      exact .record rfl rfl rfl
    · cases h
  · intro h
    cases h with
    | list => rfl
    | record hx hy hz => rw [coordinates?, hx, hy, hz]

theorem coordinate?_eq_some_iff {value : Value} {x : Double} :
    coordinate? value = some x ↔ value = .number x ∧ x.isFinite = true := by
  constructor
  · intro h
    refine ⟨?_, isFinite_of_coordinate? h⟩
    unfold coordinate? at h
    split at h
    · rw [Option.ite_none_right_eq_some] at h
      rw [Option.some.inj h.2]
    · cases h
  · rintro ⟨rfl, hfinite⟩
    exact coordinate?_number hfinite

/-- **An entry is a point** exactly if it carries three finite numbers. -/
theorem ofValue?_eq_some_iff {entry : Value} {point : Point} :
    ofValue? entry = some point ↔ ReadFrom entry point := by
  constructor
  · intro h
    unfold ofValue? at h
    obtain ⟨⟨x, y, z⟩, hcarries, h⟩ := Option.bind_eq_some_iff.mp h
    obtain ⟨x, hx, h⟩ := Option.bind_eq_some_iff.mp h
    obtain ⟨y, hy, h⟩ := Option.bind_eq_some_iff.mp h
    obtain ⟨z, hz, h⟩ := Option.bind_eq_some_iff.mp h
    cases h
    obtain ⟨rfl, hfiniteX⟩ := coordinate?_eq_some_iff.mp hx
    obtain ⟨rfl, hfiniteY⟩ := coordinate?_eq_some_iff.mp hy
    obtain ⟨rfl, hfiniteZ⟩ := coordinate?_eq_some_iff.mp hz
    exact .rounded (coordinates?_eq_some_iff.mp hcarries) hfiniteX hfiniteY hfiniteZ
  · rintro ⟨hcarries, hx, hy, hz⟩
    rw [ofValue?, coordinates?_eq_some_iff.mpr hcarries]
    simp only [bind, Option.bind_some, coordinate?_number hx, coordinate?_number hy,
      coordinate?_number hz, pure]

/-- The form of an entry makes no difference. -/
theorem Restates.ofValue?_eq {entry other : Value} (h : Restates entry other) :
    ofValue? entry = ofValue? other := by
  cases h with
  | same => rfl
  | form h hother =>
    rw [ofValue?, ofValue?, coordinates?_eq_some_iff.mpr h, coordinates?_eq_some_iff.mpr hother]

end Point

namespace Path

/-- The entries that a value lists: its own, or those of the list that it converts to. -/
inductive Lists : Value → List Value → Prop
  | list (entries : List Value) : Lists (.list entries) entries
  | curve (entries : List Value) : Lists (.curve (some (.list entries))) entries

variable {raw other : Value} {entries others : List Value}

theorem Lists.of_entries? (h : entries? raw = some entries) : Lists raw entries := by
  unfold entries? at h
  split at h
  · rw [Option.ite_none_left_eq_some] at h
    cases h.2
    exact .list entries
  · cases h
    exact .curve entries
  · cases h

/-- Where nothing is listed, there is no path. -/
theorem ofValue?_eq_none (h : ∀ entries, ¬Lists raw entries) : ofValue? raw = none := by
  have hnone : entries? raw = none := by
    rw [Option.eq_none_iff_forall_ne_some]
    intro entries hsome
    exact h entries (.of_entries? hsome)
  rw [ofValue?, hnone]
  rfl

/-- A path is read from its entries alone. -/
theorem Lists.ofValue?_eq (h : Lists raw entries) :
    ofValue? raw = if entries.isEmpty then none else entries.mapM Point.ofValue? := by
  cases h with
  | list => exact ofValue?_list entries
  | curve => rfl

/-- **A path** is read exactly where there are entries and all of them are points. -/
theorem Lists.ofValue?_eq_some_iff (h : Lists raw entries) {path : Path} :
    ofValue? raw = some path ↔ entries ≠ [] ∧ List.Forall₂ Point.ReadFrom entries path := by
  simp only [h.ofValue?_eq, Option.ite_none_left_eq_some, List.isEmpty_iff,
    mapM_eq_some_iff_forall₂, Point.ofValue?_eq_some_iff, ne_eq]

/-- Entries that are all points have a list of points. -/
theorem exists_forall₂_readFrom (h : ∀ entry ∈ entries, ∃ point, Point.ReadFrom entry point) :
    ∃ path : Path, List.Forall₂ Point.ReadFrom entries path := by
  induction entries with
  | nil => exact ⟨[], .nil⟩
  | cons entry entries ih =>
    obtain ⟨point, hpoint⟩ := h entry List.mem_cons_self
    obtain ⟨path, hpath⟩ := ih fun other hother => h other (List.mem_cons_of_mem _ hother)
    exact ⟨point :: path, .cons hpoint hpath⟩

/-- **One bad entry** is enough for there to be no path, and so is having none. -/
theorem Lists.ofValue?_eq_none_iff (h : Lists raw entries) :
    ofValue? raw = none ↔
      entries = [] ∨ ∃ entry ∈ entries, ∀ point, ¬Point.ReadFrom entry point := by
  rw [Option.eq_none_iff_forall_ne_some]
  constructor
  · intro hnone
    by_contra hgood
    push Not at hgood
    obtain ⟨hne, hpoints⟩ := hgood
    obtain ⟨path, hpath⟩ := exists_forall₂_readFrom hpoints
    exact hnone path (h.ofValue?_eq_some_iff.mpr ⟨hne, hpath⟩)
  · rintro hbad path hsome
    obtain ⟨hne, hpath⟩ := h.ofValue?_eq_some_iff.mp hsome
    rcases hbad with hnil | ⟨entry, hentry, hbad⟩
    · exact hne hnil
    · have hpoints := hpath.imp fun _ point hread => And.intro (Exists.intro point hread) hread
      obtain ⟨point, hread⟩ := ((List.forall₂_and_left _ _).mp hpoints).1 entry hentry
      exact hbad point hread

/-- Entries may be restated one by one. -/
theorem mapM_ofValue?_eq (h : List.Forall₂ Point.Restates entries others) :
    entries.mapM Point.ofValue? = others.mapM Point.ofValue? := by
  induction h with
  | nil => rfl
  | cons hentry _ ih => rw [List.mapM_cons, List.mapM_cons, hentry.ofValue?_eq, ih]

/-- Entries may be restated, and the list may be given by a curve instead. -/
theorem Lists.ofValue?_eq_of_restates (h : Lists raw entries) (hother : Lists other others)
    (hentries : List.Forall₂ Point.Restates entries others) : ofValue? other = ofValue? raw := by
  have hempty : entries.isEmpty = others.isEmpty := by
    cases hentries <;> rfl
  rw [h.ofValue?_eq, hother.ofValue?_eq, mapM_ofValue?_eq hentries, hempty]

/-- **Reading a path is all or nothing.**  A value is read as a path exactly if it lists entries and
each of them is a point, and the path has the points of the entries in their order; where there is
no entry, or one that is no point, there is no path.  Neither the form of an entry nor whether a
curve gives the list makes a difference. -/
theorem ofValue?_reads (raw : Value) :
    (∀ path : Path, ofValue? raw = some path ↔
      ∃ entries, Lists raw entries ∧ entries ≠ [] ∧ List.Forall₂ Point.ReadFrom entries path) ∧
    (ofValue? raw = none ↔ ∀ entries, Lists raw entries →
      entries = [] ∨ ∃ entry ∈ entries, ∀ point, ¬Point.ReadFrom entry point) ∧
    ∀ entries other others, Lists raw entries → Lists other others →
      List.Forall₂ Point.Restates entries others → ofValue? other = ofValue? raw := by
  refine ⟨fun path => ?_, ?_, fun _ _ _ h hother => h.ofValue?_eq_of_restates hother⟩
  · constructor
    · intro hsome
      by_cases hlists : ∃ entries, Lists raw entries
      · obtain ⟨entries, hentries⟩ := hlists
        exact ⟨entries, hentries, hentries.ofValue?_eq_some_iff.mp hsome⟩
      · rw [ofValue?_eq_none (not_exists.mp hlists)] at hsome
        cases hsome
    · rintro ⟨entries, hentries, hpath⟩
      exact hentries.ofValue?_eq_some_iff.mpr hpath
  · constructor
    · intro hnone entries hentries
      exact hentries.ofValue?_eq_none_iff.mp hnone
    · intro hbad
      by_cases hlists : ∃ entries, Lists raw entries
      · obtain ⟨entries, hentries⟩ := hlists
        exact hentries.ofValue?_eq_none_iff.mpr (hbad entries hentries)
      · exact ofValue?_eq_none (not_exists.mp hlists)

/-- Two points in a list, one of them in a list of three and one in a record with a field of its
own. -/
def listedPoints : List Value :=
  [.list [.number 1, .number 2, .number 3],
    .record [("z", .number 6), ("name", .text "b"), ("x", .number 4), ("y", .number 5)]]

/-- The same points the other way round: a record and a list. -/
def restatedPoints : List Value :=
  [.record [("x", .number 1), ("y", .number 2), ("z", .number 3)],
    .list [.number 4, .number 5, .number 6]]

theorem ofValue?_reads_restatedPoints :
    List.Forall₂ Point.Restates listedPoints restatedPoints ∧
      ofValue? (.list listedPoints) = some [⟨1, 2, 3⟩, ⟨4, 5, 6⟩] ∧
      ofValue? (.curve (some (.list restatedPoints))) = some [⟨1, 2, 3⟩, ⟨4, 5, 6⟩] := by
  have hrestates : List.Forall₂ Point.Restates listedPoints restatedPoints :=
    .cons (.form (.list _ _ _) (.record rfl rfl rfl))
      (.cons (.form (.record rfl rfl rfl) (.list _ _ _)) .nil)
  have hpath : ofValue? (.list listedPoints) = some [⟨1, 2, 3⟩, ⟨4, 5, 6⟩] := by
    decide +kernel
  refine ⟨hrestates, hpath, ?_⟩
  rw [← hpath]
  exact (ofValue?_reads _).2.2 _ _ _ (.list _) (.curve _) hrestates

end Path
end Toolpath
