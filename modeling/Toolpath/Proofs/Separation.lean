import Toolpath.Proofs.Overflow

/-! # What decides what

Two compilations of the same geometry are compared.  The bed alone decides what is reported; the
technique and the header decide the program, and a header decides nothing but its own lines.  So
points out of reach never change a program, and what a tool does never changes what is said of its
paths (`compile_separates`).
-/
namespace Toolpath

/-- The lines of a header: the caller's as they are, if there are any. -/
def Technique.headerLines (technique : Technique) (ownHeader : List String) : List String :=
  if ownHeader.isEmpty then technique.header.map Instruction.line else ownHeader

/-- A program begins with the lines of its header, and they decide nothing of the rest. -/
theorem Profile.lines_compilation (profile : Profile) (ownHeader : List String)
    (paths : List Path) :
    (profile.compilation ownHeader paths).lines = profile.technique.headerLines ownHeader ++
      (motion profile.technique paths ++ profile.technique.footer).map Instruction.line := by
  have hheader : (profile.technique.headerOr ownHeader).map Instruction.line =
      profile.technique.headerLines ownHeader := by
    rw [Technique.headerOr, Technique.headerLines]
    split
    · rfl
    · -- a line of the caller's is written as it is
      rw [List.map_map]
      exact List.map_id _
  rw [compilation, program, Technique.assemble, List.append_assoc, List.map_append, hheader]

/-- Neither the bed nor the header decides whether a program can be written. -/
theorem exists_result_compile {geometry : List Value} {value other : Value}
    {ownHeader otherHeader : List String} {compilation : Compilation} {profile : Profile}
    (h : (compile geometry value ownHeader).result = .ok compilation)
    (hother : (Profile.ofValue other).result = .ok profile)
    (htechnique : profile.technique = compilation.profile.technique) :
    ∃ second, (compile geometry other otherHeader).result = .ok second := by
  obtain ⟨first, hfirst, rfl, hfinite⟩ := eq_compilation_of_compile h
  have hpaths : ∀ path ∈ Path.ofValues geometry, path.IsRounded :=
    fun path hpath => Path.isRounded_of_mem_ofValues hpath
  have hclears := (Profile.firstNotFinite?_program_eq_none_iff ownHeader
    (Profile.yields_ofValue value first hfirst) hpaths).mp hfinite
  have hsame : profile.technique = first.technique := htechnique
  rw [← hsame] at hclears
  exact ⟨_, result_compile_of_profile hother rfl ((Profile.firstNotFinite?_program_eq_none_iff
    otherHeader (Profile.yields_ofValue other profile hother) hpaths).mpr hclears)⟩

/-- Two compilations of the same geometry, each with its header, in which the bed, the technique and
the header decide nothing that is not theirs. -/
structure Compilation.Separates (first second : Compilation)
    (ownHeader otherHeader : List String) : Prop where
  /-- The bed alone decides what is reported. -/
  reported : first.profile.bed = second.profile.bed → first.paths = second.paths ∧
    first.diagnostics = second.diagnostics ∧ first.status = second.status
  /-- The technique and the header decide the program. -/
  written : first.profile.technique = second.profile.technique → ownHeader = otherHeader →
    first.instructions = second.instructions ∧ first.lines = second.lines
  /-- The header decides its own lines and none behind them. -/
  headed : first.profile.technique = second.profile.technique → ∃ rest,
    first.lines = first.profile.technique.headerLines ownHeader ++ rest ∧
    second.lines = second.profile.technique.headerLines otherHeader ++ rest
  /-- The caller's lines stand in front of the others as they are. -/
  own : ownHeader.map .verbatim <+: first.instructions ∧ ownHeader <+: first.lines

theorem Profile.own_prefix (profile : Profile) (ownHeader : List String) (paths : List Path) :
    ownHeader.map .verbatim <+: (profile.compilation ownHeader paths).instructions ∧
      ownHeader <+: (profile.compilation ownHeader paths).lines := by
  cases ownHeader with
  | nil => exact ⟨List.nil_prefix, List.nil_prefix⟩
  | cons line ownHeader =>
    refine ⟨?_, ?_⟩
    · rw [compilation, program, Technique.assemble, List.append_assoc]
      exact List.prefix_append _ _
    · rw [lines_compilation]
      exact List.prefix_append _ _

theorem Profile.separates_compilation (profile other : Profile)
    (ownHeader otherHeader : List String) (paths : List Path) :
    (profile.compilation ownHeader paths).Separates (other.compilation otherHeader paths)
      ownHeader otherHeader := by
  constructor
  case reported =>
    intro hbed
    have hdiagnostics : profile.bed.diagnose paths = other.bed.diagnose paths :=
      congrArg (Bed.diagnose · paths) hbed
    exact ⟨rfl, hdiagnostics, congrArg Diagnostics.status hdiagnostics⟩
  case written =>
    rintro htechnique rfl
    have hprogram : profile.program ownHeader paths = other.program ownHeader paths :=
      congrArg (fun technique => Technique.assemble technique ownHeader
        (motion technique paths)) htechnique
    exact ⟨hprogram, congrArg (List.map Instruction.line) hprogram⟩
  case headed =>
    intro htechnique
    have hsame : profile.technique = other.technique := htechnique
    refine ⟨_, profile.lines_compilation ownHeader paths, ?_⟩
    rw [hsame]
    exact other.lines_compilation otherHeader paths
  case own => exact profile.own_prefix ownHeader paths

/-- **What is reported, what the tool does and how the program begins** do not interfere.  Whether
there is a program is not decided by the bed or the header either. -/
theorem compile_separates {geometry : List Value} {value other : Value}
    {ownHeader otherHeader : List String} {first second : Compilation}
    (hfirst : (compile geometry value ownHeader).result = .ok first)
    (hsecond : (compile geometry other otherHeader).result = .ok second) :
    (Profile.ofValue value).result = .ok first.profile ∧
    (Profile.ofValue other).result = .ok second.profile ∧
    first.Separates second ownHeader otherHeader ∧
    ∀ (more : Value) (profile : Profile), (Profile.ofValue more).result = .ok profile →
      profile.technique = first.profile.technique → ∀ moreHeader, ∃ third,
        (compile geometry more moreHeader).result = .ok third := by
  obtain ⟨profile, hprofile, rfl, -⟩ := eq_compilation_of_compile hfirst
  obtain ⟨profile', hprofile', rfl, -⟩ := eq_compilation_of_compile hsecond
  refine ⟨hprofile, hprofile', profile.separates_compilation profile' _ _ _, ?_⟩
  intro more profile'' hmore htechnique moreHeader
  exact exists_result_compile hfirst hmore htechnique

/-! ### The job on other machines

The bed of the one is a box, and the tool of the other only moves a pen. -/

def boxedProfile : Profile := { jobProfile with bed := .rectangular 10 10 10 }

def penProfile : Profile := { jobProfile with technique := .defaults .motion }

theorem ofValue_boxedProfile :
    (Profile.ofValue (.ofJson boxedProfile.toJson)).result = .ok boxedProfile := by
  have hsound := Profile.yields_ofValue jobSettings jobProfile ofValue_jobSettings
  have hbed : (Bed.rectangular 10 10 10).IsFinite := by
    refine ⟨?_, ?_, ?_⟩ <;> decide +kernel
  have hboxed : boxedProfile.IsSound := ⟨hsound.technique, hbed, hsound.bedShape⟩
  rw [Profile.ofValue_toJson hboxed]
  rfl

theorem ofValue_penProfile :
    (Profile.ofValue (.ofJson penProfile.toJson)).result = .ok penProfile := by
  have hsound := Profile.yields_ofValue jobSettings jobProfile ofValue_jobSettings
  have hpen : penProfile.IsSound :=
    ⟨Technique.isFinite_defaults .motion, hsound.bed, hsound.bedShape⟩
  rw [Profile.ofValue_toJson hpen]
  rfl

/-- The box is too small for the job, and the program is the same; the pen draws something else, and
the report is the same. -/
theorem compile_separates_job :
    (compile jobGeometry jobSettings []).result = .ok (jobProfile.compilation [] [jobPath]) ∧
    (compile jobGeometry (.ofJson boxedProfile.toJson) []).result =
      .ok (boxedProfile.compilation [] [jobPath]) ∧
    (compile jobGeometry (.ofJson penProfile.toJson) ["M104 S300"]).result =
      .ok (penProfile.compilation ["M104 S300"] [jobPath]) ∧
    (jobProfile.compilation [] [jobPath]).diagnostics.violationCount = 1 ∧
    (boxedProfile.compilation [] [jobPath]).diagnostics.violationCount = 2 ∧
    (jobProfile.compilation [] [jobPath]).lines = (boxedProfile.compilation [] [jobPath]).lines ∧
    (jobProfile.compilation [] [jobPath]).diagnostics =
      (penProfile.compilation ["M104 S300"] [jobPath]).diagnostics := by
  have hboxed : (compile jobGeometry (.ofJson boxedProfile.toJson) []).result =
      .ok (boxedProfile.compilation [] [jobPath]) :=
    result_compile_of_profile ofValue_boxedProfile ofValues_jobGeometry (by decide +kernel)
  have hpen : (compile jobGeometry (.ofJson penProfile.toJson) ["M104 S300"]).result =
      .ok (penProfile.compilation ["M104 S300"] [jobPath]) :=
    result_compile_of_profile ofValue_penProfile ofValues_jobGeometry (by decide +kernel)
  obtain ⟨-, -, hbox, -⟩ := compile_separates compile_job hboxed
  obtain ⟨-, -, hsame, -⟩ := compile_separates compile_job hpen
  exact ⟨compile_job, hboxed, hpen, by decide +kernel, by decide +kernel, (hbox.written rfl rfl).2,
    (hsame.reported rfl).2.1⟩

end Toolpath
