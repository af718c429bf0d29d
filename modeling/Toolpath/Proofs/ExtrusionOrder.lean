import Toolpath.Proofs.Extrusions
import Toolpath.Proofs.FixedTexts
import Toolpath.Proofs.Lengths

/-! # The order of extrusion totals

The moves that feed follow the segments of all paths, and the total of each is the one before it and
what its segment takes, added once (`FeedsAlong`).  Distances are not negative, and a sum is not
rounded beyond a number on the grid, so one addition moves the total in the direction of the
multiplier (`Double.add_feed_bounds`) and a whole run moves it in that direction only.  What is
written for the totals keeps their order (`extrusions_motion_monotone`).
-/
namespace Toolpath

/-! ## Sums and products -/

namespace Double
variable {x y : Double}

theorem isFinite_of_add (hx : x.isFinite = true) (h : (x + y).isFinite = true) :
    y.isFinite = true := by
  obtain ⟨negative, size, rfl⟩ := exists_finite_of_isFinite hx
  cases y with
  | nan => exact h
  | infinite negative' => exact h
  | finite negative' other => rfl

theorem isFinite_of_mul (hy : y.isFinite = true) (h : (x * y).isFinite = true) :
    x.isFinite = true := by
  obtain ⟨negative, size, rfl⟩ := exists_finite_of_isFinite hy
  cases x with
  | nan => exact h
  | finite negative' other => rfl
  | infinite negative' =>
    have hproduct : infinite negative' * finite negative size =
        if size.units = 0 then nan else infinite (negative' ^^ negative) := rfl
    rw [hproduct] at h
    split at h <;> exact h

/-- **One addition** of what a way takes moves a total in the direction of the multiplier. -/
theorem add_feed_bounds {total way multiplier : Double} (htotal : total.isFinite = true)
    (hway : way.IsNonnegative) (hmultiplier : multiplier.isFinite = true)
    (hnext : (total + way * multiplier).isFinite = true) :
    (0 ≤ multiplier.units → total.units ≤ (total + way * multiplier).units) ∧
      (multiplier.units ≤ 0 → (total + way * multiplier).units ≤ total.units) := by
  have hfeed := isFinite_of_add htotal hnext
  have hfinite := isFinite_of_mul hmultiplier hfeed
  have hnonneg : 0 ≤ way.units := by
    cases hway with
    | finite _ hnonneg => exact hnonneg
    | infinite => cases hfinite
  have hgrid := total.onGrid_units
  rw [(rounds_add htotal hfeed).units_eq hnext]
  constructor
  · intro hsign
    have hadded : 0 ≤ (way * multiplier).units := by
      rw [(rounds_mul hfinite hmultiplier).units_eq hfeed]
      exact roundQuotient_nonneg unitsPerOne_pos (mul_nonneg hnonneg hsign)
    exact le_roundQuotient Nat.one_pos hgrid (by omega)
  · intro hsign
    have hadded : (way * multiplier).units ≤ 0 := by
      rw [(rounds_mul hfinite hmultiplier).units_eq hfeed]
      refine roundQuotient_le unitsPerOne_pos onGrid_zero ?_
      rw [zero_mul]
      exact mul_nonpos_of_nonneg_of_nonpos hnonneg hsign
    exact roundQuotient_le Nat.one_pos hgrid (by omega)

/-! ## Zeros -/

theorem add_finite (negative negative' : Bool) (size other : Magnitude) :
    finite negative size + finite negative' other =
      ofRatio
        (if signed negative size.units + signed negative' other.units = 0 then
          negative && negative' else signed negative size.units + signed negative' other.units < 0)
        (signed negative size.units + signed negative' other.units).natAbs 1 := by
  rw [← units_finite, ← units_finite]
  rfl

protected theorem sub_self (hx : x.isFinite = true) : x - x = 0 := by
  obtain ⟨negative, size, rfl⟩ := exists_finite_of_isFinite hx
  have hadd : finite negative size - finite negative size =
      finite negative size + finite (!negative) size := rfl
  rw [hadd, add_finite, signed_not, add_neg_cancel, if_pos rfl, Bool.and_not_self, Int.natAbs_zero,
    ofRatio_zero false Nat.one_pos, ofNat_zero]

protected theorem zero_mul (hx : x.isFinite = true) : ∃ negative, 0 * x = zero negative := by
  obtain ⟨negative, size, rfl⟩ := exists_finite_of_isFinite hx
  refine ⟨false ^^ negative, ?_⟩
  have hmul : zero false * finite negative size =
      ofRatio (false ^^ negative) (0 * size.units) unitsPerOne := rfl
  rw [ofNat_zero, hmul, Nat.zero_mul, ofRatio_zero _ unitsPerOne_pos]

theorem eq_zero_of_units_eq_zero {negative : Bool} {size : Magnitude} (h : size.units = 0) :
    finite negative size = zero negative :=
  congrArg (finite negative) (Magnitude.ext h)

/-- Adding a zero changes nothing, the negative zero apart. -/
protected theorem add_zero (hx : x.isFinite = true) (hne : x ≠ zero true) (negative : Bool) :
    x + zero negative = x := by
  obtain ⟨negative', size, rfl⟩ := exists_finite_of_isFinite hx
  have hsign : (if signed negative' size.units = 0 then negative' && negative
      else decide (signed negative' size.units < 0)) = negative' := by
    have habs := natAbs_signed negative' size.units
    by_cases hzero : size.units = 0
    · have hpositive : negative' = false := by
        cases negative' with
        | false => rfl
        | true => exact absurd (eq_zero_of_units_eq_zero hzero) hne
      rw [hzero, signed_zero, if_pos rfl, hpositive, Bool.false_and]
    · rw [if_neg (by omega), decide_signed_lt_zero, decide_eq_true hzero, Bool.and_true]
  have hself := ofRatio_mul negative' size Nat.one_pos
  rw [Nat.mul_one] at hself
  rw [zero, add_finite]
  simp only [signed_zero, Int.add_zero, hsign, natAbs_signed, hself]

/-- A sum of doubles is not rounded to nothing. -/
theorem roundQuotient_one_ne_zero {i : ℤ} (h : i ≠ 0) : roundQuotient i 1 ≠ 0 := by
  have hgrid : OnGrid 1 := onGrid_two_pow 0
  rcases lt_or_gt_of_ne h with hneg | hpos
  · have hle : roundQuotient i 1 ≤ -1 := roundQuotient_le Nat.one_pos hgrid (by omega)
    omega
  · have hge : 1 ≤ roundQuotient i 1 := le_roundQuotient Nat.one_pos hgrid (by omega)
    omega

/-- A sum is the negative zero only where its first term is. -/
theorem add_ne_zero_true (hx : x.isFinite = true) (hy : y.isFinite = true) (hne : x ≠ zero true) :
    x + y ≠ zero true := by
  intro heq
  have hunits := (rounds_add hx hy).units_eq (by rw [heq]; rfl)
  obtain ⟨negative, size, rfl⟩ := exists_finite_of_isFinite hx
  obtain ⟨negative', other, rfl⟩ := exists_finite_of_isFinite hy
  have hzero : (zero true).units = 0 := rfl
  rw [heq, hzero, units_finite, units_finite] at hunits
  by_cases hsum : signed negative size.units + signed negative' other.units = 0
  · rw [add_finite, hsum, if_pos rfl, Int.natAbs_zero, ofRatio_zero _ Nat.one_pos] at heq
    have hsign : (negative && negative') = true := (finite.inj heq).1
    rw [Bool.and_eq_true] at hsign
    rw [hsign.1, hsign.2] at hsum
    simp only [signed, if_true] at hsum
    rw [hsign.1] at hne
    exact hne (eq_zero_of_units_eq_zero (by omega))
  · exact roundQuotient_one_ne_zero hsum hunits.symm

end Double

/-! ## Distances -/

namespace Point
variable {a b : Point}

theorem isNonnegative_distance (ha : a.IsFinite) (hb : b.IsFinite) :
    (a.distance b).IsNonnegative := by
  have hreach : Double.RunningSum.reach 3 ≤ 2 ^ 52 := by decide
  refine Double.isNonnegative_length (fun component hcomponent => ?_) hreach
  simp only [List.mem_cons, List.not_mem_nil, or_false] at hcomponent
  rcases hcomponent with rfl | rfl | rfl
  · exact (Double.rounds_sub hb.x ha.x).ne_nan
  · exact (Double.rounds_sub hb.y ha.y).ne_nan
  · exact (Double.rounds_sub hb.z ha.z).ne_nan

theorem distance_self (ha : a.IsFinite) : a.distance a = 0 := by
  rw [distance, Double.sub_self ha.x, Double.sub_self ha.y, Double.sub_self ha.z]
  decide +kernel

/-- **A way to the same point** adds nothing to a total. -/
theorem add_distance_self {total multiplier : Double} (ha : a.IsFinite)
    (htotal : total.isFinite = true) (hne : total ≠ .zero true)
    (hmultiplier : multiplier.isFinite = true) : total + a.distance a * multiplier = total := by
  obtain ⟨negative, hzero⟩ := Double.zero_mul hmultiplier
  rw [distance_self ha, hzero, Double.add_zero htotal hne]

end Point

/-! ## Moves that feed -/

namespace Technique
open Instruction
variable {multiplier total : Double}

/-- The moves that feed along some segments, from a total on.  Each goes to the second point of its
segment, and its one total is that before it with what the segment takes added to it. -/
inductive FeedsAlong (multiplier : Double) : Double → List Segment → List Instruction → Prop
  | nil {total : Double} : FeedsAlong multiplier total [] []
  | cons {total next : Double} {segment : Segment} {segments : List Segment} {move : Instruction}
    {moves : List Instruction} (hgoes : move.GoesTo segment.2)
    (hnext : next = total + segment.1.distance segment.2 * multiplier)
    (hfields : move.fields.filter (·.letter == .e) = [.extrusion next])
    (hrest : FeedsAlong multiplier next segments moves) :
    FeedsAlong multiplier total (segment :: segments) (move :: moves)

theorem extrusions_eq_of_filter {move : Instruction} {next : Double}
    (h : move.fields.filter (·.letter == .e) = [.extrusion next]) (moves : List Instruction) :
    extrusions (move :: moves) = next :: extrusions moves := by
  rw [← List.singleton_append, extrusions_append, extrusions, List.flatMap_singleton, h]
  rfl

/-- The moves along further segments go on from the last total. -/
theorem FeedsAlong.append {segments others : List Segment} {moves further : List Instruction}
    (h : FeedsAlong multiplier total segments moves)
    (hothers : FeedsAlong multiplier ((extrusions moves).getLastD total) others further) :
    FeedsAlong multiplier total (segments ++ others) (moves ++ further) := by
  induction h with
  | nil => exact hothers
  | cons hgoes hnext hfields _ ih =>
    rw [extrusions_eq_of_filter hfields, List.getLastD_cons] at hothers
    exact .cons hgoes hnext hfields (ih hothers)

variable {technique : Technique}

theorem feedsAlong_moves (h : technique.extrusionMultiplier? = some multiplier) (total : Double)
    (path : Path) : FeedsAlong multiplier total path.segments (technique.moves total path) := by
  induction path generalizing total with
  | nil =>
    simp only [moves, h]
    exact .nil
  | cons a rest ih =>
    cases rest with
    | nil =>
      simp only [moves, h]
      exact .nil
    | cons b rest =>
      have hrest := ih (total + a.distance b * multiplier)
      simp only [moves, h] at hrest ⊢
      refine .cons (goesTo_moveTo technique b _ none) rfl ?_ hrest
      exact (technique.moveTo b _).filter_fields

/-- A move along a segment has a field for its total. -/
theorem FeedsAlong.hasField_e {segments : List Segment} {moves : List Instruction}
    (h : FeedsAlong multiplier total segments moves) : ∀ move ∈ moves, move.hasField .e = true := by
  induction h with
  | nil => simp
  | cons _ _ hfields _ ih =>
    refine List.forall_mem_cons.mpr ⟨?_, ih⟩
    rw [hasField_e_iff, extrusions_eq_of_filter hfields]
    exact List.cons_ne_nil _ _

/-- Of the instructions for a path, the moves to its second and later points feed. -/
theorem filter_hasField_e_block (h : technique.extrusionMultiplier? = some multiplier)
    (total : Double) (path : Path) :
    (technique.block total path).filter (·.hasField .e) = technique.moves total path := by
  cases path with
  | nil =>
    simp only [moves, h]
    rfl
  | cons start rest =>
    have hmoves := (feedsAlong_moves h total (start :: rest)).hasField_e
    rw [block, List.filter_append, List.filter_append, List.filter_eq_self.mpr hmoves,
      List.filter_eq_nil_iff.mpr fun move hmove => by simp [hasField_e_of_mem_approach hmove],
      List.filter_eq_nil_iff.mpr fun move hmove => by simp [hasField_e_of_mem_lift hmove],
      List.nil_append, List.append_nil]

/-- **The moves that feed** follow the segments of all paths, one path after another. -/
theorem feedsAlong_motionFrom (h : technique.extrusionMultiplier? = some multiplier)
    (total : Double) (paths : List Path) :
    FeedsAlong multiplier total (paths.flatMap Path.segments)
      ((technique.motionFrom total paths).filter (·.hasField .e)) := by
  induction paths generalizing total with
  | nil => exact .nil
  | cons path rest ih =>
    have hafter : technique.totalAfter total path =
        (extrusions (technique.moves total path)).getLastD total := by
      rw [extrusions_moves h]
      simp only [totalAfter, h]
    rw [motionFrom, List.filter_append, List.flatMap_cons, filter_hasField_e_block h]
    refine (feedsAlong_moves h total path).append ?_
    rw [← hafter]
    exact ih _

/-! ## The order of the totals -/

/-- What holds from one total to the next holds along all of them. -/
theorem FeedsAlong.isChain {segments : List Segment} {moves : List Instruction}
    {R : Double → Double → Prop} (h : FeedsAlong multiplier total segments moves)
    (hfinite : ∀ fed ∈ total :: extrusions moves, fed.isFinite = true)
    (hstep : ∀ fed : Double, ∀ segment ∈ segments,
      (fed + segment.1.distance segment.2 * multiplier).isFinite = true → fed.isFinite = true →
        R fed (fed + segment.1.distance segment.2 * multiplier)) :
    (total :: extrusions moves).IsChain R := by
  induction h with
  | nil => exact List.isChain_singleton _
  | cons hgoes hnext hfields hrest ih =>
    rw [extrusions_eq_of_filter hfields] at hfinite ⊢
    obtain ⟨htotal, hmoved⟩ := List.forall_mem_cons.mp hfinite
    refine List.isChain_cons_cons.mpr ⟨?_, ih hmoved ?_⟩
    · have hnextFinite := hmoved _ List.mem_cons_self
      rw [hnext] at hnextFinite ⊢
      exact hstep _ _ List.mem_cons_self hnextFinite htotal
    · intro fed segment hsegment
      exact hstep fed segment (List.mem_cons_of_mem _ hsegment)

/-- A total that starts at zero never becomes the negative zero. -/
theorem FeedsAlong.ne_zero_true {segments : List Segment} {moves : List Instruction}
    (h : FeedsAlong multiplier total segments moves) (htotal : total ≠ .zero true)
    (hfinite : ∀ fed ∈ total :: extrusions moves, fed.isFinite = true) :
    ∀ fed ∈ total :: extrusions moves, fed ≠ .zero true := by
  induction h with
  | nil => exact List.forall_mem_singleton.mpr htotal
  | cons hgoes hnext hfields hrest ih =>
    rw [extrusions_eq_of_filter hfields] at hfinite ⊢
    obtain ⟨hstart, hmoved⟩ := List.forall_mem_cons.mp hfinite
    refine List.forall_mem_cons.mpr ⟨htotal, ih ?_ hmoved⟩
    have hnextFinite := hmoved _ List.mem_cons_self
    rw [hnext] at hnextFinite ⊢
    exact Double.add_ne_zero_true hstart (Double.isFinite_of_add hstart hnextFinite) htotal

/-- Instructions without a total do not count. -/
theorem extrusions_filter_hasField_e (instructions : List Instruction) :
    extrusions (instructions.filter (·.hasField .e)) = extrusions instructions := by
  induction instructions with
  | nil => rfl
  | cons instruction rest ih =>
    rw [← List.singleton_append, extrusions_append, ← ih, List.singleton_append]
    by_cases hfield : instruction.hasField .e = true
    · have hkept := List.filter_cons_of_pos (p := (·.hasField .e)) (l := rest) hfield
      rw [hkept, ← List.singleton_append, extrusions_append]
    · have hnone : extrusions [instruction] = [] := by
        by_contra hne
        exact hfield (hasField_e_iff.mpr hne)
      have hleft := List.filter_cons_of_neg (p := (·.hasField .e)) (l := rest) hfield
      rw [hleft, hnone, List.nil_append]

end Technique

/-- A double is at most another, and so is the number that is written for it as a total. -/
structure Double.AtMost (x y : Double) : Prop where
  value : x.value ≤ y.value
  written : x.written extrusionPlaces ≤ y.written extrusionPlaces

theorem Double.AtMost.of_units_le {x y : Double} (hx : x.isFinite = true) (hy : y.isFinite = true)
    (h : x.units ≤ y.units) : x.AtMost y :=
  ⟨value_le_value.mpr h, written_mono hx hy h extrusionPlaces⟩

theorem Double.AtMost.trans {x y z : Double} (h : x.AtMost y) (h' : y.AtMost z) : x.AtMost z :=
  ⟨le_trans h.value h'.value, le_trans h.written h'.written⟩

instance : Trans Double.AtMost Double.AtMost Double.AtMost := ⟨.trans⟩

namespace Technique
open Instruction

/-- **The totals of moves that feed** run in one direction, and so do the numbers written for
them. -/
theorem FeedsAlong.pairwise {multiplier total : Double} {segments : List Segment}
    {moves : List Instruction} (h : FeedsAlong multiplier total segments moves)
    (hfinite : ∀ fed ∈ total :: extrusions moves, fed.isFinite = true)
    (hpoints : ∀ segment ∈ segments, segment.1.IsFinite ∧ segment.2.IsFinite)
    (hmultiplier : multiplier.isFinite = true) :
    (0 ≤ multiplier.units → (total :: extrusions moves).Pairwise Double.AtMost) ∧
      (multiplier.units ≤ 0 →
        (total :: extrusions moves).Pairwise fun fed next => next.AtMost fed) := by
  have hbounds (fed : Double) (segment : Segment) (hsegment : segment ∈ segments)
      (hnext : (fed + segment.1.distance segment.2 * multiplier).isFinite = true)
      (hfed : fed.isFinite = true) :=
    Double.add_feed_bounds hfed
      (Point.isNonnegative_distance (hpoints segment hsegment).1 (hpoints segment hsegment).2)
      hmultiplier hnext
  constructor
  · intro hsign
    refine List.isChain_iff_pairwise.mp
      (h.isChain hfinite fun fed segment hsegment hnext hfed => ?_)
    exact .of_units_le hfed hnext ((hbounds fed segment hsegment hnext hfed).1 hsign)
  · intro hsign
    have : Trans (fun fed next : Double => next.AtMost fed)
        (fun fed next : Double => next.AtMost fed)
        (fun fed next : Double => next.AtMost fed) := ⟨fun hle hle' => hle'.trans hle⟩
    refine List.isChain_iff_pairwise.mp
      (h.isChain hfinite fun fed segment hsegment hnext hfed => ?_)
    exact .of_units_le hnext hfed ((hbounds fed segment hsegment hnext hfed).2 hsign)

end Technique

/-- Both points of a segment are points of its path. -/
theorem Path.mem_of_mem_segments {path : Path} {segment : Segment} (h : segment ∈ path.segments) :
    segment.1 ∈ path ∧ segment.2 ∈ path := by
  obtain ⟨hfirst, hsecond⟩ := List.of_mem_zip h
  exact ⟨hfirst, List.mem_of_mem_tail hsecond⟩

theorem Field.write_extrusion {total : Double} (h : total.isFinite = true) :
    (Field.extrusion total).write = .ok ("E" ++ total.fixedText extrusionPlaces) := by
  have hfield : (Field.extrusion total).isFinite = true := h
  rw [Field.write_eq (Field.placesFit_extrusion total), if_pos hfield, Field.text,
    Field.number_extrusion]
  rfl

open Instruction in
/-- **Totals never turn back.** -/
theorem extrusions_motion_monotone {settings : Thermoplastic} {paths : List Path}
    (hpoints : ∀ path ∈ paths, ∀ point ∈ path, point.IsFinite)
    (hmultiplier : settings.extrusionMultiplier.isFinite = true)
    (hfinite : ∀ total ∈ extrusions (motion (.thermoplastic settings) paths),
      total.isFinite = true) :
    Technique.FeedsAlong settings.extrusionMultiplier 0 (paths.flatMap Path.segments)
        ((motion (.thermoplastic settings) paths).filter (·.hasField .e)) ∧
      (∀ total ∈ 0 :: extrusions (motion (.thermoplastic settings) paths),
        (Field.extrusion total).write = .ok ("E" ++ total.fixedText extrusionPlaces) ∧
          exactValue? (total.fixedText extrusionPlaces) = some (total.written extrusionPlaces) ∧
          ∀ point : Point, point.IsFinite →
            total + point.distance point * settings.extrusionMultiplier = total) ∧
      (0 ≤ settings.extrusionMultiplier.value →
        (0 :: extrusions (motion (.thermoplastic settings) paths)).Pairwise Double.AtMost) ∧
      (settings.extrusionMultiplier.value ≤ 0 →
        (0 :: extrusions (motion (.thermoplastic settings) paths)).Pairwise
          fun total next => next.AtMost total) := by
  have hfeeds : Technique.FeedsAlong settings.extrusionMultiplier 0 (paths.flatMap Path.segments)
      ((motion (.thermoplastic settings) paths).filter (·.hasField .e)) :=
    Technique.feedsAlong_motionFrom rfl 0 paths
  have htotals : ∀ total ∈ 0 :: extrusions (motion (.thermoplastic settings) paths),
      total.isFinite = true := List.forall_mem_cons.mpr ⟨Double.isFinite_zero, hfinite⟩
  have hsegments : ∀ segment ∈ paths.flatMap Path.segments,
      segment.1.IsFinite ∧ segment.2.IsFinite := by
    intro segment hsegment
    obtain ⟨path, hpath, hmem⟩ := List.mem_flatMap.mp hsegment
    obtain ⟨hfirst, hsecond⟩ := Path.mem_of_mem_segments hmem
    exact ⟨hpoints path hpath _ hfirst, hpoints path hpath _ hsecond⟩
  have hzero : (0 : Double) ≠ .zero true := by
    rw [Double.ofNat_zero]
    intro heq
    cases (Double.finite.inj heq).1
  have hsame := Technique.extrusions_filter_hasField_e (motion (.thermoplastic settings) paths)
  have hpairwise := hfeeds.pairwise (by rwa [hsame]) hsegments hmultiplier
  have hpositive := hfeeds.ne_zero_true hzero (by rwa [hsame])
  rw [hsame] at hpairwise hpositive
  refine ⟨hfeeds, fun total htotal => ⟨Field.write_extrusion (htotals total htotal),
    Double.exactValue?_fixedText_eq_written (htotals total htotal) _,
    fun point hpoint => ?_⟩, ?_, ?_⟩
  · exact Point.add_distance_self hpoint (htotals total htotal) (hpositive total htotal) hmultiplier
  · intro hsign
    exact hpairwise.1 (Double.value_nonneg_iff.mp hsign)
  · intro hsign
    exact hpairwise.2 (Double.value_nonpos_iff.mp hsign)

/-- Two paths, the first of which goes to one point twice. -/
def restingPaths : List Path :=
  [[⟨0, 0, 0⟩, ⟨3, 4, 0⟩, ⟨3, 4, 0⟩, ⟨-1.5, 4, 2⟩], [⟨3, 4, 0.5⟩, ⟨35, 120, 0.5⟩]]

open Instruction in
theorem extrusions_motion_monotone_resting :
    (∀ path ∈ restingPaths, ∀ point ∈ path, point.IsFinite) ∧
      Thermoplastic.defaults.extrusionMultiplier.isFinite = true ∧
      0 ≤ Thermoplastic.defaults.extrusionMultiplier.value ∧
      (∀ total ∈ extrusions (motion (.thermoplastic .defaults) restingPaths),
        total.isFinite = true) ∧
      (0 :: extrusions (motion (.thermoplastic .defaults) restingPaths)).Pairwise
        Double.AtMost := by
  have hcoordinates : restingPaths.all (fun path => path.all fun point =>
      point.x.isFinite && (point.y.isFinite && point.z.isFinite)) = true := by decide +kernel
  have hpoints : ∀ path ∈ restingPaths, ∀ point ∈ path, point.IsFinite := by
    intro path hpath point hpoint
    have hall := List.all_eq_true.mp (List.all_eq_true.mp hcoordinates path hpath) point hpoint
    simp only [Bool.and_eq_true] at hall
    exact ⟨hall.1, hall.2.1, hall.2.2⟩
  have hmultiplier : Thermoplastic.defaults.extrusionMultiplier.isFinite = true := by
    decide +kernel
  have hsign : 0 ≤ Thermoplastic.defaults.extrusionMultiplier.value :=
    Double.value_nonneg_iff.mpr (by decide +kernel)
  have htotals : (extrusions (motion (.thermoplastic .defaults) restingPaths)).all
      (·.isFinite) = true := by decide +kernel
  have hfinite := List.all_eq_true.mp htotals
  obtain ⟨-, -, hrises, -⟩ := extrusions_motion_monotone hpoints hmultiplier hfinite
  exact ⟨hpoints, hmultiplier, hsign, hfinite, hrises hsign⟩

end Toolpath
