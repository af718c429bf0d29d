import Toolpath.Proofs.Compiling
import Toolpath.Proofs.SoundProfiles

/-! # Compiling again what was compiled

The profile and the paths that a compilation holds have been read: the profile is sound and the
paths are rounded.  So they are read as themselves when they are handed back, and compiling them
gives the same compilation (`compile_compilation`).
-/
namespace Toolpath

/-- What has been read is compiled without being changed. -/
theorem compile_toJson {profile : Profile} {paths : List Path} (h : profile.IsSound)
    (hpaths : ∀ path ∈ paths, path.IsRounded) (ownHeader : List String) :
    compile (paths.map fun path => .ofJson path.toJson) (.ofJson profile.toJson) ownHeader =
      profile.compiled ownHeader paths := by
  rw [compile_eq, Profile.ofValue_toJson h, pure_bind, Path.ofValues_toJson hpaths]

/-- **Compiling is a fixpoint on what it gives.**  The paths and the profile of a compilation, under
the same header, are compiled to that compilation again, and the only warning that can be given is
the one about points out of reach. -/
theorem compile_compilation {geometry : List Value} {value : Value} {ownHeader : List String}
    {compilation : Compilation}
    (h : (compile geometry value ownHeader).result = .ok compilation) :
    compile (compilation.paths.map fun path => .ofJson path.toJson)
        (.ofJson compilation.profile.toJson) ownHeader =
      { warnings :=
          if 0 < compilation.diagnostics.violationCount then [.outOfBounds compilation.status]
          else []
        result := .ok compilation } := by
  obtain ⟨profile, hprofile, rfl, hfinite⟩ := eq_compilation_of_compile h
  have hsound := Profile.yields_ofValue value profile hprofile
  have hpaths : ∀ path ∈ Path.ofValues geometry, path.IsRounded :=
    fun path hpath => Path.isRounded_of_mem_ofValues hpath
  refine (compile_toJson hsound hpaths ownHeader).trans ?_
  rw [Profile.compiled, hfinite, Option.elim_none, Diagnostics.boundsWarnings]
  refine Outcome.ext ?_ rfl
  by_cases hcount : (profile.bed.diagnose (Path.ofValues geometry)).violationCount = 0
  · rw [if_pos hcount]
    exact (if_neg (Nat.not_lt.mpr (Nat.le_of_eq hcount))).symm
  · rw [if_neg hcount]
    exact (if_pos (Nat.pos_of_ne_zero hcount)).symm

theorem compile_compilation_job :
    (compile jobGeometry jobSettings []).result = .ok (jobProfile.compilation [] [jobPath]) ∧
      compile [.ofJson jobPath.toJson] (.ofJson jobProfile.toJson) [] =
        { warnings := [.outOfBounds "Out of bounds: 1 point(s)"]
          result := .ok (jobProfile.compilation [] [jobPath]) } := by
  have hstatus : (jobProfile.bed.diagnose [jobPath]).status = "Out of bounds: 1 point(s)" := by
    decide +kernel
  have hcount : 0 < (jobProfile.bed.diagnose [jobPath]).violationCount := by decide +kernel
  have hagain := compile_compilation compile_job
  refine ⟨compile_job, hagain.trans (Outcome.ext ?_ rfl)⟩
  rw [← hstatus]
  exact if_pos hcount

end Toolpath
