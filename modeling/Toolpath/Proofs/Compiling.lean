import Toolpath.Compilation
import Toolpath.Proofs.Coordinates
import Toolpath.Proofs.Lines

/-! # What compiling amounts to

Once a profile has been read, there is one warning that can be added, about points out of reach, and
one way to fail, a field of the program that is not finite (`compile_eq`).
-/
namespace Toolpath

/-! ## Statuses -/

/-- The double of a natural is zero only where the natural is. -/
theorem Double.isZero_ofNat {n : Nat} : (Double.ofNat n).isZero = true ↔ n = 0 := by
  constructor
  · intro hzero
    by_contra hne
    have hunit : unitsPerOne ≤ nearestUnits (n * unitsPerOne) 1 := by
      have hgrid := onGrid_mul_unitsPerOne (m := 1) (by decide)
      rw [Nat.one_mul] at hgrid
      refine le_nearestUnits Nat.one_pos hgrid ?_
      rw [Nat.mul_one]
      exact Nat.le_mul_of_pos_left _ (Nat.pos_of_ne_zero hne)
    rw [ofNat] at hzero
    rcases ofRatio_cases false (n * unitsPerOne) 1 with ⟨size, hsize, heq⟩ | heq
    · rw [heq, isZero_finite, hsize] at hzero
      exact absurd unitsPerOne_pos (by omega)
    · rw [heq] at hzero
      cases hzero
  · rintro rfl
    exact congrArg isZero ofNat_zero

namespace Diagnostics
variable {diagnostics : Diagnostics}

/-- The status of paths is good exactly when no point is out of reach. -/
theorem status_eq_statusOk_iff :
    diagnostics.status = statusOk ↔ diagnostics.violationCount = 0 := by
  rw [status, statusFor]
  constructor
  · intro h
    split at h
    · rename_i hzero
      exact Double.isZero_ofNat.mp hzero
    · -- the other status begins with another word
      rw [String.append_assoc] at h
      have hchars := congrArg String.toList h
      rw [String.toList_append] at hchars
      cases (List.cons.inj hchars).2
  · intro h
    rw [if_pos (Double.isZero_ofNat.mpr h)]

/-- The warning about points out of reach, if there are any. -/
def boundsWarnings (diagnostics : Diagnostics) : List Warning :=
  if diagnostics.violationCount = 0 then [] else [.outOfBounds diagnostics.status]

theorem warnOutOfBounds_eq (diagnostics : Diagnostics) :
    warnOutOfBounds diagnostics = { warnings := diagnostics.boundsWarnings, result := .ok () } := by
  rw [warnOutOfBounds, boundsWarnings]
  by_cases h : diagnostics.violationCount = 0
  · rw [if_pos (status_eq_statusOk_iff.mpr h), if_pos h]
    rfl
  · rw [if_neg fun hok => h (status_eq_statusOk_iff.mp hok), if_neg h]
    rfl

end Diagnostics

/-! ## Compiling -/

/-- A computation behind one that had a result. -/
theorem Outcome.bind_eq_of_result {α β : Type} {first : Outcome α} {value : α}
    (h : first.result = .ok value) (next : α → Outcome β) :
    first >>= next =
      { warnings := first.warnings ++ (next value).warnings, result := (next value).result } := by
  obtain ⟨warnings, result⟩ := first
  cases h
  rfl

/-- The instructions of the program for some geometry. -/
def Profile.program (profile : Profile) (ownHeader : List String) (paths : List Path) :
    List Instruction :=
  profile.technique.assemble ownHeader (motion profile.technique paths)

/-- Everything that compiling finds when no field stands in its way. -/
def Profile.compilation (profile : Profile) (ownHeader : List String) (paths : List Path) :
    Compilation where
  profile := profile
  paths := paths
  diagnostics := profile.bed.diagnose paths
  instructions := profile.program ownHeader paths
  lines := (profile.program ownHeader paths).map Instruction.line

/-- What compiling comes to once the profile has been read: the warning about points out of reach,
and then the first field that is not finite, if there is one. -/
def Profile.compiled (profile : Profile) (ownHeader : List String) (paths : List Path) :
    Outcome Compilation where
  warnings := (profile.bed.diagnose paths).boundsWarnings
  result := (Instruction.firstNotFinite? (profile.program ownHeader paths)).elim
    (.ok (profile.compilation ownHeader paths)) fun field => .error field.fault

/-- **What compiling amounts to.** -/
theorem compile_eq (geometry : List Value) (value : Value) (ownHeader : List String) :
    compile geometry value ownHeader =
      Profile.ofValue value >>= fun profile =>
        profile.compiled ownHeader (Path.ofValues geometry) := by
  rw [compile]
  refine congrArg (Profile.ofValue value >>= ·) (funext fun profile => ?_)
  have hlines := Instruction.writeAll_eq fun instruction hinstruction =>
    profile.technique.placesFit_assemble ownHeader (Path.ofValues geometry) hinstruction
  dsimp only
  rw [Diagnostics.warnOutOfBounds_eq, hlines, Outcome.bind_eq_of_result rfl, Profile.compiled,
    Profile.compilation, Profile.program]
  cases Instruction.firstNotFinite? (profile.technique.assemble ownHeader
      (motion profile.technique (Path.ofValues geometry))) with
  | none => exact Outcome.ext (List.append_nil _) rfl
  | some field => exact Outcome.ext (List.append_nil _) rfl

section Compiled
variable {geometry : List Value} {value : Value} {ownHeader : List String}

theorem compile_eq_of_profile {profile : Profile}
    (h : (Profile.ofValue value).result = .ok profile) :
    compile geometry value ownHeader =
      { warnings := (Profile.ofValue value).warnings ++
          (profile.bed.diagnose (Path.ofValues geometry)).boundsWarnings
        result := (profile.compiled ownHeader (Path.ofValues geometry)).result } := by
  rw [compile_eq, Outcome.bind_eq_of_result h]
  rfl

/-- The compilation of some paths, where no field stands in its way. -/
theorem result_compile_of_profile {profile : Profile} {paths : List Path}
    (hprofile : (Profile.ofValue value).result = .ok profile)
    (hpaths : Path.ofValues geometry = paths)
    (hfinite : Instruction.firstNotFinite? (profile.program ownHeader paths) = none) :
    (compile geometry value ownHeader).result = .ok (profile.compilation ownHeader paths) := by
  rw [compile_eq_of_profile hprofile, hpaths, Profile.compiled, hfinite]
  rfl

/-- What a compilation holds was made of the paths of the geometry and the profile that was read,
and no field stood in its way. -/
theorem eq_compilation_of_compile {compilation : Compilation}
    (h : (compile geometry value ownHeader).result = .ok compilation) :
    ∃ profile, (Profile.ofValue value).result = .ok profile ∧
      compilation = profile.compilation ownHeader (Path.ofValues geometry) ∧
      Instruction.firstNotFinite? (profile.program ownHeader (Path.ofValues geometry)) = none := by
  cases hprofile : (Profile.ofValue value).result with
  | error fault =>
    rw [compile_eq, Outcome.bind_eq_andThen, Outcome.andThen, hprofile] at h
    cases h
  | ok profile =>
    refine ⟨profile, rfl, ?_⟩
    rw [compile_eq_of_profile hprofile] at h
    simp only [Profile.compiled] at h
    cases hfound : Instruction.firstNotFinite?
      (profile.program ownHeader (Path.ofValues geometry)) with
    | some field =>
      rw [hfound] at h
      cases h
    | none =>
      rw [hfound] at h
      cases h
      exact ⟨rfl, rfl⟩

end Compiled

/-! ### A job read from settings

The mode is a keyword with blanks around it, a parameter is a text, the first point has a halfway
coordinate beyond `2 ^ 48`, the second a negative zero and a coordinate out of reach. -/

/-- The settings of the job. -/
def jobSettings : Value :=
  .list [.text " Clay ", .text "DELTA",
    .record [("FeedRate", .text "0x10"), ("CurePause", .text "soon")]]

/-- The geometry of the job. -/
def jobGeometry : List Value :=
  [.null, .list [
    .record [("x", .number (.ofRatio false ((2 ^ 52 + 1) * Double.unitsPerOne) 16)),
      ("y", .number 0.0005), ("z", .number 1)],
    .list [.number (.zero true), .number (-7), .number 0.1]]]

/-- The profile that is read from the settings of the job. -/
def jobProfile : Profile where
  technique := .paste { Paste.defaults with feedRate := 16 }
  bed := .cylindrical 150 300
  bedShape := none

/-- The path that is read from the geometry of the job. -/
def jobPath : Path :=
  [⟨.ofRatio false (281474976710656063 * Double.unitsPerOne) 1000, 0.001, 1⟩, ⟨0, -7, 0.1⟩]

theorem ofValue_jobSettings : (Profile.ofValue jobSettings).result = .ok jobProfile :=
  Outcome.result_eq_ok (by decide +kernel)

theorem ofValues_jobGeometry : Path.ofValues jobGeometry = [jobPath] := by decide +kernel

theorem compile_job :
    (compile jobGeometry jobSettings []).result = .ok (jobProfile.compilation [] [jobPath]) := by
  have hfinite : Instruction.firstNotFinite? (jobProfile.program [] [jobPath]) = none := by
    decide +kernel
  exact result_compile_of_profile ofValue_jobSettings ofValues_jobGeometry hfinite

end Toolpath
