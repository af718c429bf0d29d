import Toolpath.Archive
import Toolpath.Text.Units
import Mathlib.Data.List.SplitBy
import Mathlib.Data.List.TakeWhile

/-! # Names of entries

A name that a caller asks for is made safe in two steps: every maximal run of 16-bit units that may
not stand in a name becomes one underscore, and the points in front go.  `safeUnits` says so of any
units, surrogates without a partner included, and `Archive.safeName` does it to the characters that
are read from them (`textUnits_safeName_joinUnits`): a pair of surrogates is one character, a lone
one becomes the replacement character, and neither ends a run (`StandFor`).  Safe names are the ones
that stay as they are, and every name is made one of them (`Archive.safeName_projection`).
-/
namespace Toolpath

/-! ## Characters as 16-bit units -/

/-- The first unit of a code point beyond the first 65536. -/
def highSurrogate (n : Nat) : Nat := 0xD800 + (n - 0x10000) / 0x400

/-- The second unit of such a code point. -/
def lowSurrogate (n : Nat) : Nat := 0xDC00 + (n - 0x10000) % 0x400

/-- The units of a character: its code point, or two surrogates that encode it. -/
def charUnits (c : Char) : List Nat :=
  if c.toNat < 0x10000 then [c.toNat] else [highSurrogate c.toNat, lowSurrogate c.toNat]

/-- The units of a text. -/
def textUnits (text : String) : List Nat := text.toList.flatMap charUnits

theorem isHighSurrogate_highSurrogate {n : Nat} (hlow : 0x10000 ≤ n) (hhigh : n < 0x110000) :
    isHighSurrogate (highSurrogate n) = true := by
  rw [isHighSurrogate, highSurrogate, Bool.and_eq_true, decide_eq_true_eq, decide_eq_true_eq]
  omega

theorem isLowSurrogate_lowSurrogate (n : Nat) : isLowSurrogate (lowSurrogate n) = true := by
  rw [isLowSurrogate, lowSurrogate, Bool.and_eq_true, decide_eq_true_eq, decide_eq_true_eq]
  omega

theorem pairedCodePoint_surrogates {n : Nat} (hlow : 0x10000 ≤ n) :
    pairedCodePoint (highSurrogate n) (lowSurrogate n) = n := by
  have hdigits := Nat.div_add_mod (n - 0x10000) 0x400
  unfold pairedCodePoint highSurrogate lowSurrogate
  rw [Nat.add_sub_cancel_left, Nat.add_sub_cancel_left, Nat.mul_comm, Nat.add_assoc, hdigits,
    Nat.add_sub_cancel' hlow]

/-- A character is read back from its units, whatever follows them. -/
theorem joinUnits_charUnits_append (c : Char) (rest : List Nat) :
    joinUnits (charUnits c ++ rest) = c :: joinUnits rest := by
  have hlt : c.toNat < 0x110000 := by
    have h : c.toNat.isValidChar := c.valid
    rw [Nat.isValidChar] at h
    omega
  rw [charUnits]
  split
  · -- a code point is no surrogate, so nothing is joined to it
    cases rest with
    | nil => exact congrArg (fun d => [d]) (charOfCodePoint_toNat c)
    | cons unit rest =>
      rw [List.singleton_append, joinUnits, not_isHighSurrogate, Bool.false_and,
        if_neg Bool.false_ne_true, charOfCodePoint_toNat]
  · rename_i hlarge
    have hlarge := not_lt.mp hlarge
    rw [List.cons_append, List.singleton_append, joinUnits,
      isHighSurrogate_highSurrogate hlarge hlt, isLowSurrogate_lowSurrogate, Bool.and_self,
      if_pos rfl, pairedCodePoint_surrogates hlarge, charOfCodePoint_toNat]

/-- **No text is lost in its units.** -/
theorem joinUnits_flatMap_charUnits (text : List Char) :
    joinUnits (text.flatMap charUnits) = text := by
  induction text with
  | nil => rfl
  | cons c rest ih => rw [List.flatMap_cons, joinUnits_charUnits_append, ih]

theorem textUnits_injective : Function.Injective textUnits := by
  intro a b h
  have hchars := congrArg joinUnits h
  rw [textUnits, textUnits, joinUnits_flatMap_charUnits, joinUnits_flatMap_charUnits] at hchars
  exact String.toList_injective hchars

namespace Archive

/-! ## Units in names -/

/-- The characters that may stand in a name, as ranges. -/
def nameRanges : List (Char × Char) :=
  [('A', 'Z'), ('a', 'z'), ('0', '9'), ('.', '.'), ('_', '_'), ('-', '-')]

/-- Whether a unit may stand in a name. -/
def isNameUnit (unit : Nat) : Bool :=
  nameRanges.any fun range => range.1.toNat ≤ unit && unit ≤ range.2.toNat

theorem isNameUnit_iff {unit : Nat} : isNameUnit unit = true ↔
    65 ≤ unit ∧ unit ≤ 90 ∨ 97 ≤ unit ∧ unit ≤ 122 ∨ 48 ≤ unit ∧ unit ≤ 57 ∨ unit = 46 ∨
      unit = 95 ∨ unit = 45 := by
  simp only [isNameUnit, nameRanges, List.any_cons, List.any_nil, Bool.or_false, Bool.or_eq_true,
    Bool.and_eq_true, decide_eq_true_eq, Char.reduceToNat]
  omega

theorem isNameUnit_of_large {unit : Nat} (h : 0xD800 ≤ unit) : isNameUnit unit = false := by
  rw [Bool.eq_false_iff, ne_eq, isNameUnit_iff]
  omega

/-- A character may stand in a name where its code point may. -/
theorem isNameUnit_toNat (c : Char) : isNameUnit c.toNat = isNameChar c := by
  have hname : isNameChar c = (((c.isUpper || c.isLower) || c.isDigit) || c == '.' || c == '_' ||
      c == '-') := rfl
  have hupper : c.isUpper = true ↔ 65 ≤ c.toNat ∧ c.toNat ≤ 90 :=
    decide_eq_true_iff.trans (Iff.and UInt32.le_iff_toNat_le UInt32.le_iff_toNat_le)
  have hlower : c.isLower = true ↔ 97 ≤ c.toNat ∧ c.toNat ≤ 122 :=
    Bool.and_eq_true_iff.trans (Iff.and (decide_eq_true_iff.trans UInt32.le_iff_toNat_le)
      (decide_eq_true_iff.trans UInt32.le_iff_toNat_le))
  have hdigit : c.isDigit = true ↔ 48 ≤ c.toNat ∧ c.toNat ≤ 57 :=
    Bool.and_eq_true_iff.trans (Iff.and (decide_eq_true_iff.trans UInt32.le_iff_toNat_le)
      (decide_eq_true_iff.trans UInt32.le_iff_toNat_le))
  have hchar {d : Char} : c = d ↔ c.toNat = d.toNat := Char.toNat_inj.symm
  rw [Bool.eq_iff_iff, isNameUnit_iff, hname]
  simp only [Bool.or_eq_true, beq_iff_eq, hupper, hlower, hdigit, hchar, Char.reduceToNat]
  omega

/-- **The units of a character** may stand in a name where the character may, and only there. -/
theorem isNameUnit_of_mem_charUnits {c : Char} {unit : Nat} (h : unit ∈ charUnits c) :
    isNameUnit unit = isNameChar c := by
  rw [charUnits] at h
  split at h
  · rw [List.mem_singleton.mp h, isNameUnit_toNat]
  · rename_i hlarge
    have hunit : 0xD800 ≤ unit := by
      rcases List.mem_pair.mp h with h | h
      · rw [h, highSurrogate]
        exact Nat.le_add_right _ _
      · rw [h, lowSurrogate]
        omega
    rw [isNameUnit_of_large hunit, ← isNameUnit_toNat, isNameUnit_of_large (by omega)]

theorem charUnits_of_isNameChar {c : Char} (h : isNameChar c = true) : charUnits c = [c.toNat] := by
  rw [← isNameUnit_toNat, isNameUnit_iff] at h
  rw [charUnits, if_pos (by omega)]

theorem charUnits_ne_nil (c : Char) : charUnits c ≠ [] := by
  rw [charUnits]
  split <;> exact List.cons_ne_nil _ _

/-! ## Runs -/

/-- Units in which every maximal run of those that may not stand in a name is one underscore. -/
def joinOthers (units : List Nat) : List Nat :=
  (units.splitBy fun a b => isNameUnit a == isNameUnit b).flatMap fun run =>
    if run.all isNameUnit then run else ['_'.toNat]

/-- A run that ends where the units change over. -/
theorem joinOthers_append {run rest : List Nat} {kept : Bool} (hne : run ≠ [])
    (hrun : ∀ unit ∈ run, isNameUnit unit = kept)
    (hrest : ∀ unit ∈ rest.head?, isNameUnit unit = !kept) :
    joinOthers (run ++ rest) = (if kept then run else ['_'.toNat]) ++ joinOthers rest := by
  have hchain : run.IsChain fun a b => (isNameUnit a == isNameUnit b) = true := by
    refine (List.pairwise_of_forall_mem_list fun a ha b hb => ?_).isChain
    rw [hrun a ha, hrun b hb, beq_self_eq_true]
  have hsplit : (run ++ rest).splitBy (fun a b => isNameUnit a == isNameUnit b) =
      run :: rest.splitBy fun a b => isNameUnit a == isNameUnit b := by
    rw [List.splitBy_append, List.splitBy_of_isChain hne hchain, List.singleton_append]
    intro a ha b hb
    rw [hrun a (List.mem_of_mem_getLast? ha), hrest b hb]
    cases kept <;> rfl
  have hall : run.all isNameUnit = kept := by
    cases kept with
    | true => exact List.all_eq_true.mpr hrun
    | false =>
      obtain ⟨unit, hunit⟩ := List.exists_mem_of_ne_nil run hne
      refine List.all_eq_false.mpr ⟨unit, hunit, ?_⟩
      rw [hrun unit hunit]
      exact Bool.false_ne_true
  rw [joinOthers, hsplit, List.flatMap_cons, hall, joinOthers]

/-- Units are a run of those that may stand in a name, or may not, and what follows it. -/
theorem exists_run (kept : Bool) (units : List Nat) :
    ∃ run rest, units = run ++ rest ∧ (∀ unit ∈ run, isNameUnit unit = kept) ∧
      ∀ unit ∈ rest.head?, isNameUnit unit = !kept := by
  refine ⟨units.takeWhile (isNameUnit · == kept), units.dropWhile (isNameUnit · == kept),
    List.takeWhile_append_dropWhile.symm, fun unit h => ?_, fun unit h => ?_⟩
  · have hkept := List.mem_takeWhile_imp h
    exact eq_of_beq hkept
  · have hnot := List.head?_dropWhile_not (isNameUnit · == kept) units
    rw [Option.mem_def.mp h] at hnot
    exact Bool.eq_not_of_ne (beq_eq_false_iff_ne.mp hnot)

/-- A unit that may stand in a name is kept. -/
theorem joinOthers_cons {unit : Nat} (h : isNameUnit unit = true) (units : List Nat) :
    joinOthers (unit :: units) = unit :: joinOthers units := by
  obtain ⟨run, rest, rfl, hrun, hrest⟩ := exists_run true units
  have hlonger : ∀ other ∈ unit :: run, isNameUnit other = true :=
    List.forall_mem_cons.mpr ⟨h, hrun⟩
  rw [← List.cons_append, joinOthers_append (List.cons_ne_nil _ _) hlonger hrest, if_pos rfl]
  by_cases hempty : run = []
  · rw [hempty]
    rfl
  · rw [joinOthers_append hempty hrun hrest, if_pos rfl, List.cons_append]

theorem isNameUnit_of_mem_joinOthers {units : List Nat} {unit : Nat}
    (h : unit ∈ joinOthers units) : isNameUnit unit = true := by
  obtain ⟨run, -, hunit⟩ := List.mem_flatMap.mp h
  split at hunit
  · rename_i hall
    exact List.all_eq_true.mp hall unit hunit
  · rw [List.mem_singleton.mp hunit]
    rfl

/-- Further units in front of a run are part of it. -/
theorem joinOthers_append_of_head? {others units : List Nat} {first : Nat}
    (hothers : ∀ unit ∈ others, isNameUnit unit = false) (hfirst : units.head? = some first)
    (hother : isNameUnit first = false) : joinOthers (others ++ units) = joinOthers units := by
  obtain ⟨run, rest, rfl, hrun, hrest⟩ := exists_run false units
  have hne : run ≠ [] := by
    rintro rfl
    have hname := hrest first hfirst
    rw [hother] at hname
    cases hname
  have hlonger : ∀ unit ∈ others ++ run, isNameUnit unit = false :=
    List.forall_mem_append.mpr ⟨hothers, hrun⟩
  rw [← List.append_assoc, joinOthers_append (List.append_ne_nil_of_right_ne_nil _ hne) hlonger
    hrest, joinOthers_append hne hrun hrest, if_neg Bool.false_ne_true, if_neg Bool.false_ne_true]

section JoinRuns
variable {c : Char}

theorem joinRuns_cons_of_isNameChar (h : isNameChar c = true) (text : List Char) :
    joinRuns (c :: text) = c :: joinRuns text := by
  rw [joinRuns.eq_def]
  exact if_pos h

theorem joinRuns_singleton (h : isNameChar c = false) : joinRuns [c] = ['_'] := by
  rw [joinRuns.eq_def]
  exact if_neg (Bool.eq_false_iff.mp h)

theorem joinRuns_cons_cons (h : isNameChar c = false) (next : Char) (text : List Char) :
    joinRuns (c :: next :: text) =
      if isNameChar next then '_' :: joinRuns (next :: text) else joinRuns (next :: text) := by
  rw [joinRuns.eq_def]
  exact if_neg (Bool.eq_false_iff.mp h)

end JoinRuns

/-- Every character that is left may stand in a name. -/
theorem isNameChar_of_mem_joinRuns {text : List Char} {c : Char} (h : c ∈ joinRuns text) :
    isNameChar c = true := by
  have hmark : isNameChar '_' = true := by decide
  fun_induction joinRuns text with
  | case1 => cases h
  | case2 d rest hname ih =>
    rcases List.mem_cons.mp h with rfl | hrest
    · exact hname
    · exact ih hrest
  | case3 d next rest hother hname ih =>
    rcases List.mem_cons.mp h with rfl | hrest
    · exact hmark
    · exact ih hrest
  | case4 d next rest hother hnext ih => exact ih h
  | case5 d hother => rwa [List.mem_singleton.mp h]

/-- Units that stand for characters: a character that may stand in a name for itself, any other for
one or more units that may not. -/
inductive StandFor : List Nat → List Char → Prop
  | nil : StandFor [] []
  | name {c : Char} {units : List Nat} {text : List Char} (hname : isNameChar c = true)
      (hrest : StandFor units text) : StandFor (c.toNat :: units) (c :: text)
  | other {c : Char} {group units : List Nat} {text : List Char} (hother : isNameChar c = false)
      (hne : group ≠ []) (hgroup : ∀ unit ∈ group, isNameUnit unit = false)
      (hrest : StandFor units text) : StandFor (group ++ units) (c :: text)

/-- **Runs of characters are runs of units.** -/
theorem StandFor.joinOthers_eq {units : List Nat} {text : List Char} (h : StandFor units text) :
    joinOthers units = (joinRuns text).map Char.toNat := by
  induction h with
  | nil => rfl
  | name hname hrest ih =>
    rw [joinOthers_cons (by rwa [isNameUnit_toNat]), ih, joinRuns_cons_of_isNameChar hname,
      List.map_cons]
  | @other c group units text hother hne hgroup hrest ih =>
    -- the character that follows says whether the run goes on
    cases hrest with
    | nil =>
      have hends : ∀ unit ∈ ([] : List Nat).head?, isNameUnit unit = !false := by
        rintro _ ⟨⟩
      rw [joinOthers_append hne hgroup hends, joinRuns_singleton hother,
        if_neg Bool.false_ne_true]
      rfl
    | @name next units text hnext hrest =>
      have hends : ∀ unit ∈ (next.toNat :: units).head?, isNameUnit unit = !false := by
        rintro _ ⟨⟩
        rwa [isNameUnit_toNat]
      rw [joinOthers_append hne hgroup hends, ih, joinRuns_cons_cons hother, if_pos hnext,
        if_neg Bool.false_ne_true, List.map_cons, List.singleton_append]
    | @other next nextGroup units text hnext hnonempty hnextGroup hrest =>
      have hfirst : (nextGroup ++ units).head? = some (nextGroup.head hnonempty) := by
        rw [List.head?_append_of_ne_nil _ hnonempty, List.head?_eq_some_head hnonempty]
      rw [joinOthers_append_of_head? hgroup hfirst (hnextGroup _ (List.head_mem hnonempty)), ih,
        joinRuns_cons_cons hother, if_neg (Bool.eq_false_iff.mp hnext)]

/-! ## Reading units as characters -/

theorem toNat_charOfCodePoint {n : Nat} (h : n.isValidChar) : (charOfCodePoint n).toNat = n := by
  have hchar : Char.ofNat n = Char.ofNatAux n h := dif_pos h
  rw [charOfCodePoint, if_pos h, hchar]
  rfl

/-- The replacement character is no more usable than the units that it replaces. -/
theorem isNameChar_charOfCodePoint (n : Nat) : isNameChar (charOfCodePoint n) = isNameUnit n := by
  by_cases h : n.isValidChar
  · rw [← isNameUnit_toNat, toNat_charOfCodePoint h]
  · have hlarge : 0xD800 ≤ n := by
      rw [Nat.isValidChar] at h
      omega
    rw [charOfCodePoint, if_neg h, isNameUnit_of_large hlarge]
    decide

/-- A unit that is read on its own. -/
theorem StandFor.cons {units : List Nat} {text : List Char} (h : StandFor units text)
    (unit : Nat) : StandFor (unit :: units) (charOfCodePoint unit :: text) := by
  have hchar := isNameChar_charOfCodePoint unit
  cases hunit : isNameUnit unit with
  | true =>
    have hvalid : unit.isValidChar := by
      rw [isNameUnit_iff] at hunit
      rw [Nat.isValidChar]
      omega
    have hname := StandFor.name (hchar.trans hunit) h
    rwa [toNat_charOfCodePoint hvalid] at hname
  | false =>
    exact StandFor.other (hchar.trans hunit) (List.cons_ne_nil unit [])
      (List.forall_mem_singleton.mpr hunit) h

/-- **Units stand for the characters that are read from them.** -/
theorem standFor_joinUnits (units : List Nat) : StandFor units (joinUnits units) := by
  fun_induction joinUnits units with
  | case1 => exact .nil
  | case2 unit => exact StandFor.nil.cons unit
  | case3 unit next rest hpair ih =>
    rw [isHighSurrogate, isLowSurrogate] at hpair
    simp only [Bool.and_eq_true, decide_eq_true_eq] at hpair
    have hcode : 0xD800 ≤ pairedCodePoint unit next := by
      unfold pairedCodePoint
      omega
    have hother := (isNameChar_charOfCodePoint _).trans (isNameUnit_of_large hcode)
    have hgroup : ∀ n ∈ [unit, next], isNameUnit n = false := by
      intro n hn
      have hsurrogate : 0xD800 ≤ n := by
        rcases List.mem_pair.mp hn with h | h <;> omega
      exact isNameUnit_of_large hsurrogate
    exact .other hother (List.cons_ne_nil _ _) hgroup ih
  | case4 unit next rest hpair ih => exact ih.cons unit

/-! ## Safe names -/

/-- Units made safe: one underscore for every maximal run of other units, then no point in front,
or the default name when nothing is left. -/
def safeUnits (units : List Nat) : List Nat :=
  let kept := (joinOthers units).dropWhile (· == '.'.toNat)
  if kept.isEmpty then textUnits defaultName else kept

/-- Units that are a safe name. -/
structure IsSafeUnits (units : List Nat) : Prop where
  ne_nil : units ≠ []
  isNameUnit : ∀ unit ∈ units, isNameUnit unit = true
  head?_ne : units.head? ≠ some '.'.toNat

/-- Safe names: some letters, digits, points, underscores and hyphens, with no point in front. -/
structure IsSafeName (name : String) : Prop where
  ne_empty : name ≠ ""
  isNameChar : ∀ c ∈ name.toList, isNameChar c = true
  head?_ne : name.toList.head? ≠ some '.'

theorem flatMap_charUnits {text : List Char} (h : ∀ c ∈ text, isNameChar c = true) :
    text.flatMap charUnits = text.map Char.toNat := by
  rw [List.map_eq_flatMap]
  exact List.flatMap_congr fun c hc => charUnits_of_isNameChar (h c hc)

theorem head?_map_toNat_ne {text : List Char} :
    (text.map Char.toNat).head? ≠ some '.'.toNat ↔ text.head? ≠ some '.' := by
  rw [List.head?_map, ne_eq, ne_eq, ← Option.map_some,
    (Option.map_injective fun _ _ => Char.toNat_inj.mp).eq_iff]

/-- **A name is safe** when its units are. -/
theorem isSafeName_iff {name : String} : IsSafeName name ↔ IsSafeUnits (textUnits name) := by
  constructor
  · intro h
    have hunits : textUnits name = name.toList.map Char.toNat := flatMap_charUnits h.isNameChar
    rw [hunits]
    exact {
      ne_nil := mt List.map_eq_nil_iff.mp (mt String.toList_eq_nil_iff.mp h.ne_empty)
      isNameUnit := List.forall_mem_map.mpr fun c hc => by
        rw [isNameUnit_toNat, h.isNameChar c hc]
      head?_ne := head?_map_toNat_ne.mpr h.head?_ne }
  · intro h
    have hchars : ∀ c ∈ name.toList, isNameChar c = true := by
      intro c hc
      obtain ⟨unit, hunit⟩ := List.exists_mem_of_ne_nil _ (charUnits_ne_nil c)
      rw [← isNameUnit_of_mem_charUnits hunit]
      exact h.isNameUnit unit (List.mem_flatMap.mpr ⟨c, hc, hunit⟩)
    have hunits : textUnits name = name.toList.map Char.toNat := flatMap_charUnits hchars
    rw [hunits] at h
    exact {
      ne_empty := by
        rintro rfl
        exact h.ne_nil rfl
      isNameChar := hchars
      head?_ne := head?_map_toNat_ne.mp h.head?_ne }

theorem isSafeName_defaultName : IsSafeName defaultName where
  ne_empty := by decide
  isNameChar := List.all_eq_true.mp (by decide)
  head?_ne := by decide

/-- **Units are made safe**, whatever they are. -/
theorem isSafeUnits_safeUnits (units : List Nat) : IsSafeUnits (safeUnits units) := by
  rw [safeUnits]
  split
  · exact isSafeName_iff.mp isSafeName_defaultName
  · rename_i hkept
    exact {
      ne_nil := mt List.isEmpty_iff.mpr hkept
      isNameUnit := fun unit hunit => isNameUnit_of_mem_joinOthers (List.dropWhile_subset _ hunit)
      head?_ne := fun hfirst => by
        have hnot := List.head?_dropWhile_not (· == '.'.toNat) (joinOthers units)
        rw [hfirst] at hnot
        cases hnot }

/-- Safe units have no run to join. -/
theorem joinOthers_of_forall {units : List Nat} (h : ∀ unit ∈ units, isNameUnit unit = true) :
    joinOthers units = units := by
  induction units with
  | nil => rfl
  | cons unit units ih =>
    obtain ⟨hunit, hunits⟩ := List.forall_mem_cons.mp h
    rw [joinOthers_cons hunit, ih hunits]

theorem safeUnits_eq_self_iff {units : List Nat} : safeUnits units = units ↔ IsSafeUnits units := by
  constructor
  · intro h
    rw [← h]
    exact isSafeUnits_safeUnits units
  · intro h
    have hne : units.isEmpty ≠ true := mt List.isEmpty_iff.mp h.ne_nil
    rw [safeUnits, joinOthers_of_forall h.isNameUnit,
      List.dropWhile_beq_eq_self_of_head?_ne h.head?_ne, if_neg hne]

/-- **The units of a safe name** are the safe units, also where the name has been read from units
that are no text. -/
theorem textUnits_safeName_joinUnits (units : List Nat) :
    textUnits (safeName (String.ofList (joinUnits units))) = safeUnits units := by
  have hpoint : (· == '.'.toNat) ∘ Char.toNat = (· == '.') := by
    funext c
    rw [Function.comp_apply, Bool.eq_iff_iff, beq_iff_eq, beq_iff_eq, Char.toNat_inj]
  have hunits : (joinOthers units).dropWhile (· == '.'.toNat) =
      ((joinRuns (joinUnits units)).dropWhile (· == '.')).map Char.toNat := by
    rw [(standFor_joinUnits units).joinOthers_eq, List.dropWhile_map, hpoint]
  rw [safeUnits, hunits, List.isEmpty_map, safeName, String.toList_ofList]
  split
  · rfl
  · rw [textUnits, String.toList_ofList, flatMap_charUnits]
    exact fun c hc => isNameChar_of_mem_joinRuns (List.dropWhile_subset _ hc)

theorem textUnits_safeName (name : String) :
    textUnits (safeName name) = safeUnits (textUnits name) := by
  have h := textUnits_safeName_joinUnits (textUnits name)
  rwa [show joinUnits (textUnits name) = name.toList from joinUnits_flatMap_charUnits _,
    String.ofList_toList] at h

theorem isSafeName_safeName (name : String) : IsSafeName (safeName name) := by
  rw [isSafeName_iff, textUnits_safeName]
  exact isSafeUnits_safeUnits (textUnits name)

theorem safeName_eq_self_iff {name : String} : safeName name = name ↔ IsSafeName name := by
  rw [← textUnits_injective.eq_iff, textUnits_safeName, safeUnits_eq_self_iff, isSafeName_iff]

/-- **Safe names are the fixed points** of making a name safe, and every name is made one.  This
holds of texts, and of 16-bit units that are none: what they are read as is made into the same safe
units as they are. -/
theorem safeName_projection :
    (∀ units : List Nat,
      textUnits (safeName (String.ofList (joinUnits units))) = safeUnits units ∧
        IsSafeUnits (safeUnits units) ∧ safeUnits (safeUnits units) = safeUnits units ∧
          (safeUnits units = units ↔ IsSafeUnits units)) ∧
    ∀ name : String,
      textUnits (safeName name) = safeUnits (textUnits name) ∧ IsSafeName (safeName name) ∧
        safeName (safeName name) = safeName name ∧ (safeName name = name ↔ IsSafeName name) := by
  constructor
  · intro units
    have hsafe := isSafeUnits_safeUnits units
    exact ⟨textUnits_safeName_joinUnits units, hsafe, safeUnits_eq_self_iff.mpr hsafe,
      safeUnits_eq_self_iff⟩
  · intro name
    have hsafe := isSafeName_safeName name
    exact ⟨textUnits_safeName name, hsafe, safeName_eq_self_iff.mpr hsafe, safeName_eq_self_iff⟩

/-- Runs are joined first: the underscore behind some points is left when they go. -/
example : safeName "../a b" = "_a_b" := by decide +kernel

end Archive
end Toolpath
