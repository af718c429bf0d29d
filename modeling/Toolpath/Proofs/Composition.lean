import Toolpath.Proofs.Compiling
import Toolpath.Proofs.Extrusions
import Toolpath.Proofs.SoundProfiles

/-! # Compiling geometry in parts

The program for two pieces of geometry put together goes through the paths of the first piece and
then through those of the second.  Its body begins with the body of the first piece.  The rest is
the body of the second piece, except that a technique that counts filament goes on counting where
the first piece ended (`Technique.CountsOn`).  Entries that are no paths leave no trace at all,
wherever they stand (`Padded`).  Both are in `compile_append`.
-/
namespace Toolpath

/-! ## Entries that are no paths -/

/-- Geometry with entries put in, at any places, that are no paths. -/
inductive Padded : List Value → List Value → Prop
  | nil : Padded [] []
  | keep (entry : Value) {geometry padded : List Value} (h : Padded geometry padded) :
    Padded (entry :: geometry) (entry :: padded)
  | skip {entry : Value} (hentry : Path.ofValue? entry = none) {geometry padded : List Value}
    (h : Padded geometry padded) : Padded geometry (entry :: padded)

/-- The paths of the geometry are the same. -/
theorem Padded.ofValues_eq {geometry padded : List Value} (h : Padded geometry padded) :
    Path.ofValues padded = Path.ofValues geometry := by
  induction h with
  | nil => rfl
  | @keep entry geometry padded _ ih =>
    rw [← List.singleton_append, ← List.singleton_append (l := geometry), Path.ofValues_append,
      Path.ofValues_append, ih]
  | skip hentry _ ih => rw [Path.ofValues, List.filterMap_cons_none hentry, ← Path.ofValues, ih]

/-- Compiling sees nothing of the geometry but its paths. -/
theorem compile_congr {geometry other : List Value}
    (h : Path.ofValues geometry = Path.ofValues other) (value : Value) (ownHeader : List String) :
    compile geometry value ownHeader = compile other value ownHeader := by
  rw [compile_eq, compile_eq, h]

/-! ## Counting on -/

/-- Some instructions for paths, as they stand alone and as they stand behind others that have fed a
total already.  Where filament is not counted they are the same.  Where it is, they differ in the
totals only, and both times these are the partial sums of what the segments take. -/
structure Technique.CountsOn (technique : Technique) (paths : List Path) (total : Double)
    (alone behind : List Instruction) : Prop where
  uncounted : technique.mode ≠ .thermoplastic → behind = alone
  unfed : behind.map Instruction.unfed = alone.map Instruction.unfed
  totals_alone : ∀ settings, technique = .thermoplastic settings →
    Instruction.extrusions alone = writtenTotals settings.extrusionMultiplier 0 paths
  totals_behind : ∀ settings, technique = .thermoplastic settings →
    Instruction.extrusions behind = writtenTotals settings.extrusionMultiplier total paths

namespace Technique
variable (technique : Technique)

/-- The total after some paths is the last one that stands in their instructions, and nothing where
none stands there. -/
theorem foldl_totalAfter_eq {settings : Thermoplastic} (h : technique = .thermoplastic settings)
    (paths : List Path) :
    paths.foldl technique.totalAfter 0 =
      (Instruction.extrusions (Toolpath.motion technique paths)).getLastD 0 := by
  have hmultiplier : technique.extrusionMultiplier? = some settings.extrusionMultiplier := by
    rw [h]
    rfl
  rw [foldl_totalAfter hmultiplier, Toolpath.motion, extrusions_motionFrom hmultiplier]

/-- **Two lists of paths, one after the other.** -/
theorem exists_motion_append (first second : List Path) : ∃ behind,
    Toolpath.motion technique (first ++ second) = Toolpath.motion technique first ++ behind ∧
    technique.CountsOn second
      ((Instruction.extrusions (Toolpath.motion technique first)).getLastD 0)
      (Toolpath.motion technique second) behind := by
  refine ⟨_, technique.motionFrom_append 0 first second, ?_⟩
  constructor
  case uncounted =>
    intro hmode
    exact motionFrom_eq_of_none (extrusionMultiplier?_eq_none hmode) _ 0 second
  case unfed => exact technique.map_unfed_motionFrom _ 0 second
  case totals_alone =>
    rintro settings rfl
    exact extrusions_motionFrom rfl 0 second
  case totals_behind =>
    intro settings h
    rw [← technique.foldl_totalAfter_eq h]
    subst h
    exact extrusions_motionFrom rfl _ second

end Technique

/-! ## Compiling -/

/-- **Compiling composes over geometry.** -/
theorem compile_append (value : Value) (ownHeader : List String) :
    (∀ (first second : List Value) (c₁ c₂ c : Compilation),
      (compile first value ownHeader).result = .ok c₁ →
      (compile second value ownHeader).result = .ok c₂ →
      (compile (first ++ second) value ownHeader).result = .ok c →
      c₁.profile = c.profile ∧ c₂.profile = c.profile ∧ c.paths = c₁.paths ++ c₂.paths ∧
      ∃ body₁ body₂ behind,
        c₁.instructions =
          c.profile.technique.headerOr ownHeader ++ body₁ ++ c.profile.technique.footer ∧
        c₂.instructions =
          c.profile.technique.headerOr ownHeader ++ body₂ ++ c.profile.technique.footer ∧
        c.instructions = c.profile.technique.headerOr ownHeader ++ (body₁ ++ behind) ++
          c.profile.technique.footer ∧
        c.profile.technique.CountsOn c₂.paths ((Instruction.extrusions body₁).getLastD 0)
          body₂ behind) ∧
    ∀ geometry padded, Padded geometry padded →
      compile padded value ownHeader = compile geometry value ownHeader := by
  refine ⟨fun first second c₁ c₂ c h₁ h₂ h => ?_, fun geometry padded hpadded => ?_⟩
  · obtain ⟨profile, hprofile, rfl, -⟩ := eq_compilation_of_compile h
    obtain ⟨profile₁, hprofile₁, rfl, -⟩ := eq_compilation_of_compile h₁
    obtain ⟨profile₂, hprofile₂, rfl, -⟩ := eq_compilation_of_compile h₂
    -- all three were compiled for the profile that the value is read as
    obtain rfl : profile₁ = profile := Except.ok.inj (hprofile₁.symm.trans hprofile)
    obtain rfl : profile₂ = profile₁ := Except.ok.inj (hprofile₂.symm.trans hprofile)
    obtain ⟨behind, hbody, hcounts⟩ := profile₂.technique.exists_motion_append
      (Path.ofValues first) (Path.ofValues second)
    refine ⟨rfl, rfl, Path.ofValues_append first second, _, _, behind, rfl, rfl, ?_, hcounts⟩
    rw [← hbody, ← Path.ofValues_append]
    rfl
  · exact compile_congr hpadded.ofValues_eq value ownHeader

/-! ### A print in two parts

Each part is one side of a right triangle.  Between the parts stand an empty list, a curve that
cannot be converted, a path with a coordinate that is no number, and a point that is no path. -/

/-- A machine that melts a filament. -/
def printerProfile : Profile :=
  { Profile.defaults with technique := .defaults .thermoplastic }

/-- The first side: it takes a unit of filament. -/
def firstPart : List Value :=
  [.list [.list [.number 0, .number 0, .number 0], .list [.number 3, .number 4, .number 0]]]

/-- The second side, and a point by itself. -/
def secondPart : List Value :=
  [.curve (some (.list [.list [.number 3, .number 4, .number 0],
      .record [("x", .number 3), ("y", .number 16), ("z", .number 5)]])),
    .list [.list [.number 1, .number 1, .number 1]]]

def paddedParts : List Value :=
  .list [] :: firstPart ++ .curve none ::
    .list [.list [.number 0, .number 0, .number 0], .list [.number .nan, .number 0, .number 0]] ::
      .list [.number 1, .number 2, .number 3] :: secondPart

/-- The paths of the two parts. -/
def firstSide : Path := [⟨0, 0, 0⟩, ⟨3, 4, 0⟩]

def secondSide : List Path := [[⟨3, 4, 0⟩, ⟨3, 16, 5⟩], [⟨1, 1, 1⟩]]

theorem isSound_printerProfile : printerProfile.IsSound :=
  ⟨Technique.isFinite_defaults .thermoplastic, Profile.isSound_defaults.bed, fun _ h => by cases h⟩

theorem ofValue_printerProfile :
    (Profile.ofValue (.ofJson printerProfile.toJson)).result = .ok printerProfile := by
  rw [Profile.ofValue_toJson isSound_printerProfile]
  rfl

theorem padded_paddedParts : Padded (firstPart ++ secondPart) paddedParts := by
  have hsame : ∀ geometry, Padded geometry geometry := by
    intro geometry
    induction geometry with
    | nil => exact .nil
    | cons entry geometry ih => exact .keep entry ih
  have hmalformed : Path.ofValue? (.list [.list [.number 0, .number 0, .number 0],
      .list [.number .nan, .number 0, .number 0]]) = none := by
    decide +kernel
  exact .skip rfl (.keep _ (.skip rfl (.skip hmalformed (.skip rfl (hsame secondPart)))))

theorem compile_append_printer :
    (compile firstPart (.ofJson printerProfile.toJson) []).result =
      .ok (printerProfile.compilation [] [firstSide]) ∧
    (compile secondPart (.ofJson printerProfile.toJson) []).result =
      .ok (printerProfile.compilation [] secondSide) ∧
    (compile (firstPart ++ secondPart) (.ofJson printerProfile.toJson) []).result =
      .ok (printerProfile.compilation [] (firstSide :: secondSide)) ∧
    (∃ body₁ body₂ behind,
      (printerProfile.compilation [] [firstSide]).instructions =
        printerProfile.technique.header ++ body₁ ++ printerProfile.technique.footer ∧
      (printerProfile.compilation [] secondSide).instructions =
        printerProfile.technique.header ++ body₂ ++ printerProfile.technique.footer ∧
      (printerProfile.compilation [] (firstSide :: secondSide)).instructions =
        printerProfile.technique.header ++ (body₁ ++ behind) ++ printerProfile.technique.footer ∧
      printerProfile.technique.CountsOn secondSide ((Instruction.extrusions body₁).getLastD 0)
        body₂ behind) ∧
    compile paddedParts (.ofJson printerProfile.toJson) [] =
      compile (firstPart ++ secondPart) (.ofJson printerProfile.toJson) [] := by
  have hfirst : Path.ofValues firstPart = [firstSide] := by decide +kernel
  have hsecond : Path.ofValues secondPart = secondSide := by decide +kernel
  have hboth : Path.ofValues (firstPart ++ secondPart) = firstSide :: secondSide := by
    rw [Path.ofValues_append, hfirst, hsecond]
    rfl
  have h₁ : (compile firstPart (.ofJson printerProfile.toJson) []).result =
      .ok (printerProfile.compilation [] [firstSide]) :=
    result_compile_of_profile ofValue_printerProfile hfirst (by decide +kernel)
  have h₂ : (compile secondPart (.ofJson printerProfile.toJson) []).result =
      .ok (printerProfile.compilation [] secondSide) :=
    result_compile_of_profile ofValue_printerProfile hsecond (by decide +kernel)
  have h : (compile (firstPart ++ secondPart) (.ofJson printerProfile.toJson) []).result =
      .ok (printerProfile.compilation [] (firstSide :: secondSide)) :=
    result_compile_of_profile ofValue_printerProfile hboth (by decide +kernel)
  obtain ⟨hcompose, hpad⟩ := compile_append (.ofJson printerProfile.toJson) []
  obtain ⟨-, -, -, hbodies⟩ := hcompose firstPart secondPart _ _ _ h₁ h₂ h
  exact ⟨h₁, h₂, h, hbodies, hpad _ _ padded_paddedParts⟩

end Toolpath
