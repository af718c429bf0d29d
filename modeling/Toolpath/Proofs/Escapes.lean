import Toolpath.Proofs.QuotedTexts
import Toolpath.Decimal.Numeral

/-! # Escapes

The two spellings do not know the same escapes.  What the strict one reads between two quotes is a
run of raw characters and escapes (`StrictBody.of_quoted?`), and the loose one reads it too, but
keeps the backslash of an escape that it does not know.  Doubling these backslashes gives a text
that the strict spelling reads as the loose one reads the first (`StrictBody.doubles`).
-/
namespace Toolpath

/-! ## Escapes -/

/-- The characters that stand for a single one behind a backslash in the loose spelling. -/
def knownEscapes : List Char := ['n', 't', 'r', '\\', '\'', '"']

/-- A text with a second backslash wherever the loose spelling keeps the first. -/
def doubled : List Char → List Char
  | [] => []
  | '\\' :: c :: rest =>
    if c ∈ knownEscapes then '\\' :: c :: doubled rest else '\\' :: '\\' :: c :: doubled rest
  | c :: rest => c :: doubled rest

/-- The characters that stand behind a backslash. -/
def escapes : List Char → List Char
  | [] => []
  | '\\' :: c :: rest => c :: escapes rest
  | _ :: rest => escapes rest

/-- Nothing is doubled where every escape is known. -/
theorem doubled_eq_self {text : List Char} (h : ∀ c ∈ escapes text, c ∈ knownEscapes) :
    doubled text = text := by
  fun_induction doubled text with
  | case1 => rfl
  | case2 c rest _ ih =>
    rw [escapes] at h
    rw [ih fun d hd => h d (List.mem_cons_of_mem c hd)]
  | case3 c rest hunknown =>
    rw [escapes] at h
    exact absurd (h c List.mem_cons_self) hunknown
  | case4 c rest hc ih =>
    rw [escapes] at h
    · rw [ih h]
    · exact hc

theorem doubled_escape (c : Char) (rest : List Char) :
    doubled ('\\' :: c :: rest) =
      if c ∈ knownEscapes then '\\' :: c :: doubled rest
      else '\\' :: '\\' :: c :: doubled rest := by
  rw [doubled]

theorem doubled_of_ne {c : Char} (h : c ≠ '\\') (rest : List Char) :
    doubled (c :: rest) = c :: doubled rest := by
  rw [doubled]
  intro d others hc _
  exact h hc

/-- Where no backslash stands, nothing is doubled. -/
theorem doubled_append {front : List Char} (h : ∀ c ∈ front, c ≠ '\\') (rest : List Char) :
    doubled (front ++ rest) = front ++ doubled rest := by
  induction front with
  | nil => rfl
  | cons c front ih =>
    rw [List.cons_append, doubled_of_ne (h c List.mem_cons_self),
      ih fun d hd => h d (List.mem_cons_of_mem c hd), List.cons_append]

theorem head?_doubled (text : List Char) : (doubled text).head? = text.head? := by
  fun_cases doubled text with
  | case1 => rfl
  | case2 c rest _ => rfl
  | case3 c rest _ => rfl
  | case4 c rest _ => rfl

/-! ## Quoted texts -/

/-- A character that stands for itself between double quotes, in either spelling. -/
def IsRaw (c : Char) : Prop := ¬c.toNat < 0x20 ∧ c ≠ '"' ∧ c ≠ '\\'

instance (c : Char) : Decidable (IsRaw c) := inferInstanceAs (Decidable (_ ∧ _))

/-- The characters between two double quotes, the code points that the strict spelling takes them
for, and the characters that the loose spelling takes them for. -/
inductive StrictBody : List Char → List Nat → List Char → Prop
  | nil : StrictBody [] [] []
  | raw {c : Char} {chars : List Char} {units : List Nat} {loose : List Char}
    (hc : IsRaw c) (h : StrictBody chars units loose) :
    StrictBody (c :: chars) (c.toNat :: units) (c :: loose)
  | escaped {c d : Char} {chars : List Char} {units : List Nat} {loose : List Char}
    (hc : Strict.unescape? c = some d) (h : StrictBody chars units loose) :
    StrictBody ('\\' :: c :: chars) (d.toNat :: units) (Loose.unescape c ++ loose)
  | unit {a b c d : Char} {unit : Nat} {chars : List Char} {units : List Nat} {loose : List Char}
    (hunit : wholeInBase? 16 [a, b, c, d] = some unit) (h : StrictBody chars units loose) :
    StrictBody ('\\' :: 'u' :: a :: b :: c :: d :: chars) (unit :: units)
      ('\\' :: 'u' :: a :: b :: c :: d :: loose)

/-- **A quoted text that is read** is a body and its closing quote. -/
theorem StrictBody.of_quoted? {text rest : List Char} {units : List Nat}
    (h : Strict.quoted? text = some (units, rest)) :
    ∃ chars loose, text = chars ++ '"' :: rest ∧ StrictBody chars units loose := by
  fun_induction Strict.quoted? text generalizing units rest with
  | case1 => cases h
  | case2 =>
    cases h
    exact ⟨[], [], rfl, .nil⟩
  | case3 a b c d tail ih =>
    obtain ⟨unit, hunit, h⟩ := Option.bind_eq_some_iff.mp h
    obtain ⟨⟨more, behind⟩, hq, h⟩ := Option.bind_eq_some_iff.mp h
    cases h
    obtain ⟨chars, loose, rfl, hbody⟩ := ih hq
    exact ⟨_, _, rfl, .unit hunit hbody⟩
  | case4 c tail _ ih =>
    obtain ⟨escaped, hc, h⟩ := Option.bind_eq_some_iff.mp h
    obtain ⟨⟨more, behind⟩, hq, h⟩ := Option.bind_eq_some_iff.mp h
    cases h
    obtain ⟨chars, loose, rfl, hbody⟩ := ih hq
    exact ⟨_, _, rfl, .escaped hc hbody⟩
  | case5 => cases h
  | case6 c tail hquote _ hbackslash hlow ih =>
    obtain ⟨⟨more, behind⟩, hq, h⟩ := Option.bind_eq_some_iff.mp h
    cases h
    -- a backslash at the very end would have no closing quote behind it
    have hne : c ≠ '\\' := by
      intro hc
      cases tail with
      | nil => cases hq
      | cons d others => exact hbackslash d others hc rfl
    obtain ⟨chars, loose, rfl, hbody⟩ := ih hq
    exact ⟨_, _, rfl, .raw ⟨hlow, hquote, hne⟩ hbody⟩

theorem toNat_of_digitValue? {c : Char} {value : Nat} (h : digitValue? c = some value) :
    48 ≤ c.toNat ∧ c.toNat ≤ 57 ∨ 97 ≤ c.toNat ∧ c.toNat ≤ 102 ∨ 65 ≤ c.toNat ∧ c.toNat ≤ 70 := by
  have hbounds {low high : Char} (hc : low ≤ c ∧ c ≤ high) :
      low.toNat ≤ c.toNat ∧ c.toNat ≤ high.toNat :=
    ⟨UInt32.le_iff_toNat_le.mp hc.1, UInt32.le_iff_toNat_le.mp hc.2⟩
  unfold digitValue? at h
  split at h
  · rename_i hc
    exact .inl (hbounds hc)
  · split at h
    · rename_i hc
      exact .inr (.inl (hbounds hc))
    · split at h
      · rename_i hc
        exact .inr (.inr (hbounds hc))
      · cases h

/-- The digits of a 16-bit unit are characters that may stand raw between quotes. -/
theorem isRaw_of_wholeInBase? {digits : List Char} {unit : Nat}
    (h : wholeInBase? 16 digits = some unit) :
    ∀ c ∈ digits, IsRaw c := by
  have hdigits (start : Nat) (hfold : digits.foldlM (fun value c => do
      let digit ← digitValue? c
      if digit < 16 then some (value * 16 + digit) else none) start = some unit) :
      ∀ c ∈ digits, ∃ value, digitValue? c = some value := by
    clear h
    induction digits generalizing start with
    | nil => simp
    | cons c digits ih =>
      obtain ⟨next, hnext, hmore⟩ := Option.bind_eq_some_iff.mp hfold
      obtain ⟨value, hvalue, _⟩ := Option.bind_eq_some_iff.mp hnext
      rintro d (_ | ⟨_, hd⟩)
      · exact ⟨value, hvalue⟩
      · exact ih next hmore d hd
  intro c hc
  obtain ⟨value, hvalue⟩ := hdigits 0 h c hc
  have hrange := toNat_of_digitValue? hvalue
  refine ⟨by omega, ?_, ?_⟩
  · rintro rfl
    revert hrange
    decide
  · rintro rfl
    revert hrange
    decide

/-- An escape of the strict spelling is known to the loose one as the same character, or it is kept
there and the character behind the backslash may stand raw. -/
theorem unescape?_cases {c d : Char} (h : Strict.unescape? c = some d) :
    (c ∈ knownEscapes ∧ Loose.unescape c = [d]) ∨
      (c ∉ knownEscapes ∧ Loose.unescape c = ['\\', c] ∧ IsRaw c) := by
  unfold Strict.unescape? at h
  split at h
  all_goals cases h
  · exact .inl ⟨by decide, rfl⟩
  · exact .inl ⟨by decide, rfl⟩
  · exact .inr ⟨by decide, rfl, by decide⟩
  · exact .inr ⟨by decide, rfl, by decide⟩
  · exact .inr ⟨by decide, rfl, by decide⟩
  · exact .inl ⟨by decide, rfl⟩
  · exact .inl ⟨by decide, rfl⟩
  · exact .inl ⟨by decide, rfl⟩

theorem Loose.quoted?_raw_append {front : List Char} (hfront : ∀ c ∈ front, IsRaw c)
    (rest : List Char) :
    quoted? '"' (front ++ rest) =
      (quoted? '"' rest).map fun (text, rest) => (front ++ text, rest) := by
  induction front with
  | nil => exact Option.map_id'.symm
  | cons c front ih =>
    obtain ⟨_, hquote, hbackslash⟩ := hfront c List.mem_cons_self
    rw [List.cons_append, quoted?_of_ne hbackslash, if_neg hquote,
      ih fun d hd => hfront d (List.mem_cons_of_mem c hd), Option.map_map]
    rfl

/-- Doubling goes through a unit: its backslash is doubled, and its digits stay. -/
theorem doubled_unit {a b c d : Char} {unit : Nat} (h : wholeInBase? 16 [a, b, c, d] = some unit)
    (rest : List Char) : doubled ('\\' :: 'u' :: a :: b :: c :: d :: rest) =
      '\\' :: '\\' :: 'u' :: a :: b :: c :: d :: doubled rest := by
  have hne : ∀ digit ∈ [a, b, c, d], digit ≠ '\\' :=
    fun digit hdigit => (isRaw_of_wholeInBase? h digit hdigit).2.2
  have hdigits := doubled_append hne rest
  rw [doubled_escape, if_neg (by decide)]
  exact congrArg ('\\' :: '\\' :: 'u' :: ·) hdigits

namespace StrictBody
variable {chars loose : List Char} {units : List Nat}

theorem raw_append {front : List Char} (hfront : ∀ c ∈ front, IsRaw c)
    (h : StrictBody chars units loose) :
    StrictBody (front ++ chars) (front.map Char.toNat ++ units) (front ++ loose) := by
  induction front with
  | nil => exact h
  | cons c front ih =>
    exact .raw (hfront c List.mem_cons_self) (ih fun d hd => hfront d (List.mem_cons_of_mem c hd))

/-- **The strict spelling reads a body** up to the quote behind it. -/
theorem strict_quoted? (h : StrictBody chars units loose) (rest : List Char) :
    Strict.quoted? (chars ++ '"' :: rest) = some (units, rest) := by
  induction h with
  | nil => rfl
  | raw hc _ ih =>
    rw [List.cons_append, Strict.quoted?_of_ne hc.2.1 hc.2.2, if_neg hc.1, ih]
    rfl
  | @escaped c d chars units loose hc _ ih =>
    have hne : c ≠ 'u' := by
      rintro rfl
      cases hc
    rw [List.cons_append, List.cons_append, Strict.quoted?_escape hne, hc, ih]
    rfl
  | unit hunit _ ih =>
    simp only [List.cons_append]
    rw [Strict.quoted?, hunit, ih]
    rfl

/-- **The loose spelling reads a body** up to the quote behind it. -/
theorem loose_quoted? (h : StrictBody chars units loose) (rest : List Char) :
    Loose.quoted? '"' (chars ++ '"' :: rest) = some (loose, rest) := by
  induction h with
  | nil => exact Loose.quoted?_quote (.inl rfl) rest
  | raw hc _ ih =>
    rw [List.cons_append, Loose.quoted?_of_ne hc.2.2, if_neg hc.2.1, ih]
    rfl
  | escaped _ _ ih =>
    rw [List.cons_append, List.cons_append, Loose.quoted?_escape, ih]
    rfl
  | @unit a b c d _ chars _ _ hunit _ ih =>
    have hdigits := Loose.quoted?_raw_append (isRaw_of_wholeInBase? hunit) (chars ++ '"' :: rest)
    rw [ih] at hdigits
    simp only [List.cons_append, List.nil_append] at hdigits ⊢
    rw [Loose.quoted?_escape, hdigits]
    rfl

theorem doubled_append_quote (h : StrictBody chars units loose) (rest : List Char) :
    doubled (chars ++ '"' :: rest) = doubled chars ++ '"' :: doubled rest := by
  induction h with
  | nil => exact doubled_of_ne (by decide) rest
  | raw hc _ ih =>
    rw [List.cons_append, doubled_of_ne hc.2.2, doubled_of_ne hc.2.2, ih]
    rfl
  | escaped _ _ ih =>
    rw [List.cons_append, List.cons_append, doubled_escape, doubled_escape, ih]
    split <;> rfl
  | unit hunit _ ih =>
    simp only [List.cons_append]
    rw [doubled_unit hunit, doubled_unit hunit, ih]
    rfl

/-- **The doubled body** is for the strict spelling what the body is for the loose one. -/
theorem doubles (h : StrictBody chars units loose) :
    StrictBody (doubled chars) (loose.map Char.toNat) loose := by
  induction h with
  | nil => exact .nil
  | raw hc _ ih =>
    rw [doubled_of_ne hc.2.2]
    exact .raw hc ih
  | @escaped c d chars units loose hc _ ih =>
    rw [doubled_escape, List.map_append]
    rcases unescape?_cases hc with ⟨hknown, hloose⟩ | ⟨hunknown, hloose, hraw⟩
    · have hread : StrictBody ('\\' :: c :: doubled chars) (d.toNat :: loose.map Char.toNat)
        (Loose.unescape c ++ loose) := .escaped hc ih
      rw [hloose] at hread ⊢
      rw [if_pos hknown]
      exact hread
    · rw [if_neg hunknown, hloose]
      exact .escaped (c := '\\') rfl (.raw hraw ih)
  | @unit a b c d _ chars _ _ hunit _ ih =>
    have hkept : ∀ digit ∈ ['u', a, b, c, d], IsRaw digit := by
      rintro digit (_ | ⟨_, hdigit⟩)
      · decide
      · exact isRaw_of_wholeInBase? hunit digit hdigit
    rw [doubled_unit hunit]
    exact .escaped (c := '\\') rfl (ih.raw_append hkept)

end StrictBody

end Toolpath
