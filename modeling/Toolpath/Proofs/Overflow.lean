import Toolpath.Proofs.Compiling
import Toolpath.Proofs.SoundProfiles

/-! # What can overflow

Once its profile has been read, a program can fail in two ways only: the height in which the tool
travels above an end of a path, or the filament fed so far, is no longer finite.  Every other number
of the program is a parameter of a sound profile, a rounded coordinate or a constant
(`Technique.overflows_of_mem_motionFrom`).  The statement about compilation is
`compile_of_profile`: it succeeds exactly when these numbers are finite, and otherwise reports
the first field that is not, after all warnings.
-/
namespace Toolpath

/-! ## Totals of filament -/

/-- How much filament each segment of a path takes. -/
def Path.feeds (multiplier : Double) (path : Path) : List Double :=
  path.segments.map fun segment => segment.1.distance segment.2 * multiplier

/-- The totals along a path are the partial sums of what its segments take. -/
theorem cons_extrusionTotals (multiplier total : Double) (path : Path) :
    total :: extrusionTotals multiplier total path =
      (path.feeds multiplier).scanl (· + ·) total := by
  match path with
  | [] => rfl
  | [point] => rfl
  | a :: b :: rest =>
    have ih := cons_extrusionTotals multiplier (total + a.distance b * multiplier) (b :: rest)
    rw [extrusionTotals, ih]
    exact List.scanl_cons.symm

theorem extrusionTotals_eq_tail (multiplier total : Double) (path : Path) :
    extrusionTotals multiplier total path =
      ((path.feeds multiplier).scanl (· + ·) total).tail := by
  rw [← cons_extrusionTotals, List.tail_cons]

/-- The total after a path is that before it with all its segments added. -/
theorem getLastD_extrusionTotals (multiplier total : Double) (path : Path) :
    (extrusionTotals multiplier total path).getLastD total =
      (path.feeds multiplier).foldl (· + ·) total := by
  have hlast := congrArg List.getLast? (cons_extrusionTotals multiplier total path)
  rw [List.getLast?_scanl, List.getLast?_cons] at hlast
  rw [List.getLastD_eq_getLast?]
  exact Option.some.inj hlast

/-- The totals of filament that are written while some paths are followed. -/
def writtenTotals (multiplier total : Double) (paths : List Path) : List Double :=
  ((paths.flatMap (Path.feeds multiplier)).scanl (· + ·) total).tail

theorem writtenTotals_cons (multiplier total : Double) (path : Path) (rest : List Path) :
    writtenTotals multiplier total (path :: rest) =
      extrusionTotals multiplier total path ++
        writtenTotals multiplier ((extrusionTotals multiplier total path).getLastD total) rest := by
  rw [writtenTotals, List.flatMap_cons, List.scanl_append,
    List.tail_append_of_ne_nil List.scanl_ne_nil, ← extrusionTotals_eq_tail,
    getLastD_extrusionTotals]
  rfl

/-! ## Fields of a path -/

/-- Where a move names finite coordinates and a finite rate, only its height and its total may be
anything else. -/
theorem MoveTarget.height_or_total {target : MoveTarget} {field : Field}
    (hx : ∀ x, target.x = some x → x.isFinite = true)
    (hy : ∀ y, target.y = some y → y.isFinite = true)
    (hrate : ∀ rate, target.feedRate = some rate → rate.isFinite = true)
    (hfield : field ∈ target.fields) (hbad : field.isFinite = false) :
    (∃ z, target.z = some z ∧ .plain .z z = field) ∨
      ∃ total, target.extrusion = some total ∧ .extrusion total = field := by
  rcases mem_fields_iff.mp hfield with ⟨x, hsome, rfl⟩ | ⟨y, hsome, rfl⟩ | h | h | ⟨f, hsome, rfl⟩
  · exact absurd (hx x hsome) (Bool.eq_false_iff.mp hbad)
  · exact absurd (hy y hsome) (Bool.eq_false_iff.mp hbad)
  · exact .inl h
  · exact .inr h
  · exact absurd (hrate f hsome) (Bool.eq_false_iff.mp hbad)

/-- The end of a path that is a point: its first or its last one. -/
def Path.IsEnd (path : Path) (point : Point) : Prop :=
  path.head? = some point ∨ path.getLast? = some point

namespace Technique

/-- A field that may be anything but finite: a height above an end of a path, or a total. -/
def Overflows (technique : Technique) (total : Double) (paths : List Path) (field : Field) : Prop :=
  (∃ path ∈ paths, ∃ point, path.IsEnd point ∧
    field = .plain .z (technique.clearanceAbove point)) ∨
  ∃ multiplier, technique.extrusionMultiplier? = some multiplier ∧
    ∃ fed ∈ writtenTotals multiplier total paths, field = .extrusion fed

variable {technique : Technique} {total : Double} {field : Field}

theorem isFinite_feedRate (h : technique.IsFinite) : technique.feedRate.isFinite = true := by
  cases technique with
  | thermoplastic settings => exact (isFinite_thermoplastic.mp h).2.2.2.1
  | paste settings => exact (isFinite_paste.mp h).2.2.2.2.1
  | motion settings => exact (isFinite_motion.mp h).2.2.2.1

theorem isFinite_temperatures (h : technique.IsFinite) {x : Double}
    (hx : x ∈ technique.temperatures) : x.isFinite = true := by
  cases technique with
  | thermoplastic settings =>
    obtain ⟨hnozzle, hbed, -⟩ := isFinite_thermoplastic.mp h
    rcases List.mem_cons.mp hx with rfl | hx
    · exact hnozzle
    · rw [List.mem_singleton.mp hx]
      exact hbed
  | paste settings => cases hx
  | motion settings => cases hx

theorem isFinite_rapidFeedRate : rapidFeedRate.isFinite = true := by decide +kernel

theorem isFinite_of_some_eq {x y : Double} (hx : x.isFinite = true) (h : some x = some y) :
    y.isFinite = true := by
  rw [← Option.some.inj h]
  exact hx

/-- The fields of a move to a point are finite, but for a total. -/
theorem eq_extrusion_of_mem_moveTo {point : Point} {extrusion : Option Double}
    (h : technique.IsFinite) (hpoint : point.IsRounded)
    (hfield : field ∈ (technique.moveTo point extrusion).fields) (hbad : field.isFinite = false) :
    ∃ fed, extrusion = some fed ∧ .extrusion fed = field := by
  rcases MoveTarget.height_or_total (fun _ => isFinite_of_some_eq hpoint.x.isFinite)
      (fun _ => isFinite_of_some_eq hpoint.y.isFinite)
      (fun _ => isFinite_of_some_eq (isFinite_feedRate h)) hfield hbad with
    ⟨z, hz, rfl⟩ | htotal
  · exact absurd (isFinite_of_some_eq hpoint.z.isFinite hz) (Bool.eq_false_iff.mp hbad)
  · exact htotal

/-- The fields of the approach are finite, but for the height above the point. -/
theorem eq_clearance_of_mem_approach {start : Point} (h : technique.IsFinite)
    (hstart : start.IsRounded)
    (hfield : field ∈ (technique.approach start).flatMap Instruction.fields)
    (hbad : field.isFinite = false) : field = .plain .z (technique.clearanceAbove start) := by
  rw [approach, List.flatMap_cons, List.flatMap_cons, List.flatMap_cons, List.flatMap_nil,
    List.append_nil, List.mem_append, List.mem_append] at hfield
  rcases hfield with hfield | hfield | hfield
  · cases hfield
  · rcases MoveTarget.height_or_total (fun _ => isFinite_of_some_eq hstart.x.isFinite)
        (fun _ => isFinite_of_some_eq hstart.y.isFinite)
        (fun _ => isFinite_of_some_eq isFinite_rapidFeedRate) hfield hbad with
      ⟨z, hz, rfl⟩ | ⟨total, htotal, -⟩
    · cases hz
      rfl
    · cases htotal
  · obtain ⟨fed, hfed, -⟩ := eq_extrusion_of_mem_moveTo h hstart hfield hbad
    cases hfed

/-- The fields of the lift are finite, but for the height above the point. -/
theorem eq_clearance_of_mem_lift {last : Point}
    (hfield : field ∈ (technique.lift last).flatMap Instruction.fields)
    (hbad : field.isFinite = false) : field = .plain .z (technique.clearanceAbove last) := by
  rw [lift, List.flatMap_cons, List.flatMap_cons, List.flatMap_nil, List.append_nil,
    List.mem_append] at hfield
  rcases hfield with hfield | hfield
  · cases hfield
  · rcases MoveTarget.height_or_total (fun x hx => by cases hx) (fun y hy => by cases hy)
        (fun _ => isFinite_of_some_eq isFinite_rapidFeedRate) hfield hbad with
      ⟨z, hz, rfl⟩ | ⟨total, htotal, -⟩
    · cases hz
      rfl
    · cases htotal

/-- The fields of the moves along a path are finite, but for the totals. -/
theorem eq_extrusion_of_mem_moves {path : Path} (h : technique.IsFinite)
    (hpath : ∀ point ∈ path, point.IsRounded)
    (hfield : field ∈ (technique.moves total path).flatMap Instruction.fields)
    (hbad : field.isFinite = false) :
    ∃ multiplier, technique.extrusionMultiplier? = some multiplier ∧
      ∃ fed ∈ extrusionTotals multiplier total path, field = .extrusion fed := by
  rw [moves_eq_map, List.flatMap_map] at hfield
  obtain ⟨target, htarget, hfield⟩ := List.mem_flatMap.mp hfield
  have hpoint : target.1 ∈ path.tail := by
    rw [← map_fst_targets]
    exact List.mem_map.mpr ⟨target, htarget, rfl⟩
  obtain ⟨fed, hfed, rfl⟩ :=
    eq_extrusion_of_mem_moveTo h (hpath _ (List.mem_of_mem_tail hpoint)) hfield hbad
  obtain ⟨multiplier, hmultiplier, hmem⟩ :=
    some_mem_map_snd_targets_iff.mp (List.mem_map.mpr ⟨target, htarget, hfed⟩)
  exact ⟨multiplier, hmultiplier, fed, hmem, rfl⟩

/-! ## Fields of all paths -/

theorem overflows_of_mem_block {path : Path} (h : technique.IsFinite) (hpath : path.IsRounded)
    (hfield : field ∈ (technique.block total path).flatMap Instruction.fields)
    (hbad : field.isFinite = false) :
    (∃ point, path.IsEnd point ∧ field = .plain .z (technique.clearanceAbove point)) ∨
      ∃ multiplier, technique.extrusionMultiplier? = some multiplier ∧
        ∃ fed ∈ extrusionTotals multiplier total path, field = .extrusion fed := by
  cases path with
  | nil => exact absurd rfl hpath.ne_nil
  | cons start rest =>
    have hstart := hpath.isRounded start List.mem_cons_self
    rw [block, List.flatMap_append, List.flatMap_append, List.mem_append, List.mem_append] at hfield
    rcases hfield with (hfield | hfield) | hfield
    · exact .inl ⟨start, .inl rfl, eq_clearance_of_mem_approach h hstart hfield hbad⟩
    · exact .inr (eq_extrusion_of_mem_moves h hpath.isRounded hfield hbad)
    · refine .inl ⟨rest.getLastD start, .inr ?_, eq_clearance_of_mem_lift hfield hbad⟩
      rw [List.getLast?_cons, List.getLastD_eq_getLast?]

/-- **A field of the motion that is not finite** is the height above an end of a path or a total. -/
theorem overflows_of_mem_motionFrom {paths : List Path} (h : technique.IsFinite)
    (hpaths : ∀ path ∈ paths, path.IsRounded)
    (hfield : field ∈ (technique.motionFrom total paths).flatMap Instruction.fields)
    (hbad : field.isFinite = false) : technique.Overflows total paths field := by
  induction paths generalizing total with
  | nil => cases hfield
  | cons path rest ih =>
    -- the later paths start from the total after this one, where the totals of this one end
    rw [motionFrom, List.flatMap_append, List.mem_append] at hfield
    rcases hfield with hfield | hfield
    · rcases overflows_of_mem_block h (hpaths path List.mem_cons_self) hfield hbad with
        ⟨point, hend, heq⟩ | ⟨multiplier, hmultiplier, fed, hfed, heq⟩
      · exact .inl ⟨path, List.mem_cons_self, point, hend, heq⟩
      · refine .inr ⟨multiplier, hmultiplier, fed, ?_, heq⟩
        rw [writtenTotals_cons]
        exact List.mem_append_left _ hfed
    · have hrest := fun other hother => hpaths other (List.mem_cons_of_mem path hother)
      rcases ih hrest hfield with
        ⟨other, hother, hpoint⟩ | ⟨multiplier, hmultiplier, fed, hfed, heq⟩
      · exact .inl ⟨other, List.mem_cons_of_mem _ hother, hpoint⟩
      · refine .inr ⟨multiplier, hmultiplier, fed, ?_, heq⟩
        rw [totalAfter, hmultiplier] at hfed
        rw [writtenTotals_cons]
        exact List.mem_append_right _ hfed

/-! ### Every one of them is there -/

theorem mem_fields_approach (technique : Technique) (start : Point) :
    .plain .z (technique.clearanceAbove start) ∈
      (technique.approach start).flatMap Instruction.fields := by
  refine List.mem_flatMap.mpr ⟨_, List.mem_cons_of_mem _ List.mem_cons_self, ?_⟩
  exact MoveTarget.mem_fields_iff.mpr (.inr (.inr (.inl ⟨_, rfl, rfl⟩)))

theorem mem_fields_lift (technique : Technique) (last : Point) :
    .plain .z (technique.clearanceAbove last) ∈
      (technique.lift last).flatMap Instruction.fields := by
  refine List.mem_flatMap.mpr ⟨_, List.mem_cons_of_mem _ List.mem_cons_self, ?_⟩
  exact MoveTarget.mem_fields_iff.mpr (.inr (.inr (.inl ⟨_, rfl, rfl⟩)))

theorem mem_fields_moves {multiplier fed : Double} {path : Path}
    (hmultiplier : technique.extrusionMultiplier? = some multiplier)
    (hfed : fed ∈ extrusionTotals multiplier total path) :
    .extrusion fed ∈ (technique.moves total path).flatMap Instruction.fields := by
  have hmem := some_mem_map_snd_targets_iff.mpr ⟨multiplier, hmultiplier, hfed⟩
  obtain ⟨target, htarget, hsome⟩ := List.mem_map.mp hmem
  rw [moves_eq_map, List.flatMap_map]
  refine List.mem_flatMap.mpr ⟨target, htarget, ?_⟩
  exact MoveTarget.mem_fields_iff.mpr (.inr (.inr (.inr (.inl ⟨fed, hsome, rfl⟩))))

theorem mem_fields_block_of_isEnd {path : Path} {point : Point} (h : path.IsEnd point) :
    .plain .z (technique.clearanceAbove point) ∈
      (technique.block total path).flatMap Instruction.fields := by
  cases path with
  | nil => rcases h with h | h <;> cases h
  | cons start rest =>
    rw [block, List.flatMap_append, List.flatMap_append, List.mem_append, List.mem_append]
    rcases h with h | h
    · cases h
      exact .inl (.inl (mem_fields_approach technique _))
    · rw [List.getLast?_cons, ← List.getLastD_eq_getLast?] at h
      cases h
      exact .inr (mem_fields_lift technique _)

theorem mem_fields_motionFrom {paths : List Path} (h : technique.Overflows total paths field) :
    field ∈ (technique.motionFrom total paths).flatMap Instruction.fields := by
  induction paths generalizing total with
  | nil =>
    rcases h with ⟨path, hpath, -⟩ | ⟨multiplier, -, fed, hfed, -⟩
    · cases hpath
    · cases hfed
  | cons path rest ih =>
    rw [motionFrom, List.flatMap_append, List.mem_append]
    rcases h with ⟨other, hother, point, hend, rfl⟩ | ⟨multiplier, hmultiplier, fed, hfed, rfl⟩
    · rcases List.mem_cons.mp hother with rfl | hother
      · exact .inl (mem_fields_block_of_isEnd hend)
      · exact .inr (ih (.inl ⟨other, hother, point, hend, rfl⟩))
    · rw [writtenTotals_cons, List.mem_append] at hfed
      rcases hfed with hfed | hfed
      · left
        cases path with
        | nil => cases hfed
        | cons start others =>
          rw [block, List.flatMap_append, List.flatMap_append]
          exact List.mem_append_left _ (List.mem_append_right _ (mem_fields_moves hmultiplier hfed))
      · refine .inr (ih (.inr ⟨multiplier, hmultiplier, fed, ?_, rfl⟩))
        rw [totalAfter, hmultiplier]
        exact hfed

/-! ## Programs -/

/-- The tool can travel above both ends of every path. -/
def ClearsEnds (technique : Technique) (paths : List Path) : Prop :=
  ∀ path ∈ paths, ∀ point, path.IsEnd point →
    (point.z + technique.clearanceHeight).isFinite = true

/-- Where filament is counted, the count stays finite as the segments of all paths are added up. -/
def FeedsFinitely (technique : Technique) (paths : List Path) : Prop :=
  ∀ settings, technique = .thermoplastic settings →
    ∀ fed ∈ (paths.flatMap (Path.feeds settings.extrusionMultiplier)).scanl (· + ·) 0,
      fed.isFinite = true

/-- The partial sums are the one that nothing is added to and those that are written. -/
theorem mem_scanl_feeds_iff {multiplier fed : Double} {paths : List Path} :
    fed ∈ (paths.flatMap (Path.feeds multiplier)).scanl (· + ·) total ↔
      fed = total ∨ fed ∈ writtenTotals multiplier total paths := by
  rw [writtenTotals]
  cases paths.flatMap (Path.feeds multiplier) with
  | nil => rw [List.scanl_nil, List.tail_cons, List.mem_cons]
  | cons first others => rw [List.scanl_cons, List.tail_cons, List.mem_cons]

/-- A field that overflows stands for a height or a total that does. -/
theorem not_finite_of_overflows {paths : List Path} (h : technique.Overflows 0 paths field)
    (hbad : field.isFinite = false) :
    ¬(technique.ClearsEnds paths ∧ technique.FeedsFinitely paths) := by
  rintro ⟨hclears, hfeeds⟩
  rcases h with ⟨path, hpath, point, hend, rfl⟩ | ⟨multiplier, hmultiplier, fed, hfed, rfl⟩
  · exact Bool.eq_false_iff.mp hbad (hclears path hpath point hend)
  · cases technique with
    | thermoplastic settings =>
      cases hmultiplier
      have hsum := mem_scanl_feeds_iff.mpr (.inr hfed)
      exact Bool.eq_false_iff.mp hbad (hfeeds settings rfl fed hsum)
    | paste settings => cases hmultiplier
    | motion settings => cases hmultiplier

/-- A height or a total that overflows stands in a field that does. -/
theorem finite_of_forall_overflows {paths : List Path}
    (h : ∀ field, technique.Overflows 0 paths field → field.isFinite = true) :
    technique.ClearsEnds paths ∧ technique.FeedsFinitely paths := by
  constructor
  · intro path hpath point hend
    exact h (.plain .z (technique.clearanceAbove point)) (.inl ⟨path, hpath, point, hend, rfl⟩)
  · intro settings hsettings fed hfed
    rcases mem_scanl_feeds_iff.mp hfed with hzero | hfed
    · rw [hzero]
      exact Double.isFinite_zero
    · refine h (.extrusion fed) (.inr ⟨settings.extrusionMultiplier, ?_, fed, hfed, rfl⟩)
      rw [hsettings]
      rfl

end Technique

namespace Profile
variable {profile : Profile} {paths : List Path} {ownHeader : List String} {field : Field}

/-- The header and the footer of a sound profile hold finite numbers only. -/
theorem overflows_of_mem_program (h : profile.IsSound) (hpaths : ∀ path ∈ paths, path.IsRounded)
    (hfield : field ∈ (profile.program ownHeader paths).flatMap Instruction.fields)
    (hbad : field.isFinite = false) : profile.technique.Overflows 0 paths field := by
  rw [program, Technique.assemble, List.flatMap_append, List.flatMap_append, List.mem_append,
    List.mem_append] at hfield
  rcases hfield with (hfield | hfield) | hfield
  · obtain ⟨letter, value, rfl, hvalue | hzero⟩ := Technique.mem_fields_headerOr hfield
    · exact absurd (Technique.isFinite_temperatures h.technique hvalue) (Bool.eq_false_iff.mp hbad)
    · rw [hzero] at hbad
      exact absurd Double.isFinite_zero (Bool.eq_false_iff.mp hbad)
  · exact Technique.overflows_of_mem_motionFrom h.technique hpaths hfield hbad
  · obtain ⟨letter, rfl⟩ := Technique.mem_fields_footer hfield
    exact absurd Double.isFinite_zero (Bool.eq_false_iff.mp hbad)

theorem mem_program_of_overflows (h : profile.technique.Overflows 0 paths field) :
    field ∈ (profile.program ownHeader paths).flatMap Instruction.fields := by
  rw [program, Technique.assemble, List.flatMap_append, List.flatMap_append, List.mem_append,
    List.mem_append]
  exact .inl (.inr (Technique.mem_fields_motionFrom h))

/-- **A program can be written exactly when its heights and totals are finite.** -/
theorem firstNotFinite?_program_eq_none_iff (ownHeader : List String) (h : profile.IsSound)
    (hpaths : ∀ path ∈ paths, path.IsRounded) :
    Instruction.firstNotFinite? (profile.program ownHeader paths) = none ↔
      profile.technique.ClearsEnds paths ∧ profile.technique.FeedsFinitely paths := by
  rw [Instruction.firstNotFinite?, List.find?_eq_none]
  constructor
  · intro hnone
    refine Technique.finite_of_forall_overflows fun field hfield => ?_
    have hfinite := hnone field (mem_program_of_overflows hfield)
    rwa [Bool.not_eq_true, Bool.not_eq_false'] at hfinite
  · intro hfinite field hfield hbad
    rw [Bool.not_eq_true'] at hbad
    exact Technique.not_finite_of_overflows (overflows_of_mem_program h hpaths hfield hbad) hbad
      hfinite

end Profile

/-! ## Faults -/

/-- The letter of a field that overflows. -/
theorem Technique.Overflows.letter_eq {technique : Technique} {total : Double} {paths : List Path}
    {field : Field} (h : technique.Overflows total paths field) :
    field.letter = .z ∨ field.letter = .e := by
  rcases h with ⟨path, -, point, -, rfl⟩ | ⟨multiplier, -, fed, -, rfl⟩
  · exact .inl rfl
  · exact .inr rfl

/-- How a number that is not finite is written in a message. -/
theorem Double.shortestText_of_not_isFinite {x : Double} (h : x.isFinite = false) :
    x.shortestText ∈ ["NaN", "Infinity", "-Infinity"] := by
  cases x with
  | nan => decide
  | infinite negative => cases negative <;> decide
  | finite negative size => cases h

/-- **When compiling fails once the profile has been read.**  It gives the warnings of the reading
and then the one about points out of reach.  It has a result exactly when the tool can travel above
both ends of every path and every total of filament is finite.  Otherwise it names the letter and
the value of the first field of the program that is not finite. -/
theorem compile_of_profile (geometry : List Value) {value : Value} (ownHeader : List String)
    {profile : Profile} (h : (Profile.ofValue value).result = .ok profile) :
    (compile geometry value ownHeader).warnings =
      (Profile.ofValue value).warnings ++
        (profile.bed.diagnose (Path.ofValues geometry)).boundsWarnings ∧
    ((∃ compilation, (compile geometry value ownHeader).result = .ok compilation) ↔
      profile.technique.ClearsEnds (Path.ofValues geometry) ∧
        profile.technique.FeedsFinitely (Path.ofValues geometry)) ∧
    (¬(profile.technique.ClearsEnds (Path.ofValues geometry) ∧
        profile.technique.FeedsFinitely (Path.ofValues geometry)) →
      ∃ field,
        Instruction.firstNotFinite? (profile.program ownHeader (Path.ofValues geometry)) =
          some field ∧
        (compile geometry value ownHeader).result =
          .error (.fieldNotFinite field.letter field.value) ∧
        (field.letter = .z ∨ field.letter = .e) ∧
        ∃ name ∈ ["NaN", "Infinity", "-Infinity"], field.value.shortestText = name ∧
          (Fault.fieldNotFinite field.letter field.value).message =
            "Field " ++ field.letter.char.toString ++ " is not a finite number (" ++ name ++
              ")") := by
  have hsound := Profile.yields_ofValue value profile h
  have hpaths : ∀ path ∈ Path.ofValues geometry, path.IsRounded :=
    fun path hpath => Path.isRounded_of_mem_ofValues hpath
  rw [← Profile.firstNotFinite?_program_eq_none_iff ownHeader hsound hpaths,
    compile_eq_of_profile h]
  refine ⟨rfl, ?_, fun hsome => ?_⟩
  · rw [Profile.compiled]
    cases Instruction.firstNotFinite? (profile.program ownHeader (Path.ofValues geometry)) with
    | none => exact ⟨fun _ => rfl, fun _ => ⟨_, rfl⟩⟩
    | some field =>
      constructor
      · rintro ⟨compilation, hok⟩
        cases hok
      · intro hnone
        cases hnone
  · obtain ⟨field, hfield⟩ := Option.ne_none_iff_exists'.mp hsome
    have hbad : field.isFinite = false := by
      have hfound := List.find?_some hfield
      rwa [Bool.not_eq_true'] at hfound
    -- it is one of the fields that may overflow, and those have one of two letters
    have hover := Profile.overflows_of_mem_program hsound hpaths (List.mem_of_find?_eq_some hfield)
      hbad
    refine ⟨field, hfield, ?_, hover.letter_eq, field.value.shortestText,
      Double.shortestText_of_not_isFinite hbad, rfl, rfl⟩
    rw [Profile.compiled, hfield]
    rfl

/-! ### A total that is not a number

No filament is fed, but the way is so long that its length overflows: nothing times infinity. -/

/-- A machine that melts a filament and feeds none of it. -/
def unfedProfile : Profile :=
  { Profile.defaults with
    technique := .thermoplastic { Thermoplastic.defaults with extrusionMultiplier := 0 } }

/-- Two points so far apart that their distance is infinite. -/
def endlessPath : Path := [⟨-.ofNat (17 * 10 ^ 307), 0, 0⟩, ⟨.ofNat (17 * 10 ^ 307), 0, 0⟩]

theorem isSound_unfedProfile : unfedProfile.IsSound := by
  refine ⟨?_, Profile.isSound_defaults.bed, fun _ h => by cases h⟩
  unfold Technique.IsFinite
  decide +kernel

theorem ofValues_endlessPath : Path.ofValues [.ofJson endlessPath.toJson] = [endlessPath] := by
  decide +kernel

theorem compile_of_profile_unfed :
    (Profile.ofValue (.ofJson unfedProfile.toJson)).result = .ok unfedProfile ∧
      (compile [.ofJson endlessPath.toJson] (.ofJson unfedProfile.toJson) []).result =
        .error (.fieldNotFinite .e .nan) := by
  have hread : (Profile.ofValue (.ofJson unfedProfile.toJson)).result = .ok unfedProfile := by
    rw [Profile.ofValue_toJson isSound_unfedProfile]
    rfl
  have hpaths : ∀ path ∈ [endlessPath], path.IsRounded := by
    rw [← ofValues_endlessPath]
    exact fun path hpath => Path.isRounded_of_mem_ofValues hpath
  have hfirst : Instruction.firstNotFinite? (unfedProfile.program [] [endlessPath]) =
      some (.extrusion .nan) := by
    decide +kernel
  have hiff := Profile.firstNotFinite?_program_eq_none_iff [] isSound_unfedProfile hpaths
  rw [hfirst] at hiff
  obtain ⟨-, -, hfails⟩ := compile_of_profile [.ofJson endlessPath.toJson] [] hread
  rw [ofValues_endlessPath] at hfails
  obtain ⟨field, hfield, hresult, -⟩ := hfails fun hfinite => by cases hiff.mpr hfinite
  rw [hfirst] at hfield
  cases hfield
  exact ⟨hread, hresult⟩

end Toolpath
