import Toolpath.Proofs.NumberTexts

/-! # Number tokens

What the scanner of numbers has taken off the front of a text.  Number texts say what may be written
for a number, and the scanner takes any of them off whole (`NumberText.number?_append`).  Here is
the way back: wherever it finds a number, a number text stood there (`Token.exists_of_number?`).
-/
namespace Toolpath

theorem endsDigits_dropWhile (text : List Char) : EndsDigits (text.dropWhile Char.isDigit) := by
  intro c hc
  have hnot := List.head?_dropWhile_not Char.isDigit text
  rw [hc] at hnot
  exact hnot

theorem isDigit_of_mem_takeWhile {text : List Char} {c : Char}
    (h : c ∈ text.takeWhile Char.isDigit) : c.isDigit = true :=
  List.all_eq_true.mp List.all_takeWhile c h

namespace Numeral

/-- A sign that is found stands there. -/
theorem exists_of_scanSign {text rest : List Char} {negative : Bool}
    (h : scanSign text = (negative, rest)) :
    ∃ minus : Option Bool, (minus = some true ↔ negative = true) ∧
      text =
        (match minus with | none => [] | some true => ['-'] | some false => ['+']) ++ rest := by
  unfold scanSign at h
  split at h
  · cases h
    exact ⟨some true, by simp, rfl⟩
  · cases h
    exact ⟨some false, by simp, rfl⟩
  · cases h
    exact ⟨none, by simp, rfl⟩

/-- A power that is found is a power text behind its letter. -/
theorem exists_of_scanPower? {text rest : List Char} {power : Int} (capital : Bool)
    (h : scanPower? text = some (power, rest)) :
    EndsDigits rest ∧ ∃ found : PowerText, found.letter :: text = found.chars ++ rest ∧
      found.capital = capital ∧ found.value = power := by
  unfold scanPower? at h
  cases hsign : scanSign text with
  | mk negative digits =>
    obtain ⟨minus, hminus, htext⟩ := exists_of_scanSign hsign
    rw [hsign] at h
    dsimp only at h
    split at h
    · cases h
    · rename_i hne
      cases h
      refine ⟨endsDigits_dropWhile digits, ⟨capital, minus, digits.takeWhile Char.isDigit, ?_,
        fun c hc => isDigit_of_mem_takeWhile hc⟩, ?_, rfl, ?_⟩
      · exact fun hnil => hne (List.isEmpty_iff.mpr hnil)
      · rw [PowerText.chars, htext, List.cons_append, List.append_assoc,
          List.takeWhile_append_dropWhile]
        rfl
      · simp only [PowerText.value, hminus]

theorem exists_of_scanExponent {text rest : List Char} {power : Int} (hends : EndsDigits text)
    (h : scanExponent text = (power, rest)) :
    EndsDigits rest ∧ ∃ found : Option PowerText,
      text = (found.map PowerText.chars).getD [] ++ rest ∧
        (found.map PowerText.value).getD 0 = power := by
  unfold scanExponent at h
  split at h
  · rename_i behind
    cases hpower : scanPower? behind with
    | none =>
      rw [hpower] at h
      cases h
      exact ⟨hends, none, rfl, rfl⟩
    | some found =>
      rw [hpower] at h
      cases h
      obtain ⟨hrest, found, hchars, hcapital, hvalue⟩ := exists_of_scanPower? false hpower
      rw [PowerText.letter, hcapital, if_neg Bool.false_ne_true] at hchars
      exact ⟨hrest, some found, hchars, hvalue⟩
  · rename_i behind
    cases hpower : scanPower? behind with
    | none =>
      rw [hpower] at h
      cases h
      exact ⟨hends, none, rfl, rfl⟩
    | some found =>
      rw [hpower] at h
      cases h
      obtain ⟨hrest, found, hchars, hcapital, hvalue⟩ := exists_of_scanPower? true hpower
      rw [PowerText.letter, hcapital, if_pos rfl] at hchars
      exact ⟨hrest, some found, hchars, hvalue⟩
  · cases h
    exact ⟨hends, none, rfl, rfl⟩

theorem exists_of_scanFraction {text rest : List Char} {fraction : Option (List Char)}
    (hends : EndsDigits text) (h : scanFraction text = (fraction, rest)) :
    EndsDigits rest ∧ (∀ digits ∈ fraction, ∀ c ∈ digits, c.isDigit = true) ∧
      text = (fraction.map ('.' :: ·)).getD [] ++ rest := by
  unfold scanFraction at h
  split at h
  · rename_i behind
    cases h
    refine ⟨endsDigits_dropWhile behind, ?_, ?_⟩
    · rintro digits ⟨⟩ c hc
      exact isDigit_of_mem_takeWhile hc
    · rw [Option.map_some, Option.getD_some, List.cons_append, List.takeWhile_append_dropWhile]
  · cases h
    exact ⟨hends, nofun, rfl⟩

end Numeral

namespace Token

theorem eq_of_scanMinus {text rest : List Char} {negative : Bool}
    (h : scanMinus text = (negative, rest)) :
    text = (if negative then ['-'] else []) ++ rest := by
  unfold scanMinus at h
  split at h
  · cases h
    rfl
  · cases h
    rfl

/-- A numeral in the form JSON asks for is a number text without its minus. -/
theorem exists_of_scan (negative : Bool) {text rest : List Char} {numeral : Numeral}
    (hscan : Numeral.scan text = (numeral, rest)) (hstrict : isStrictNumeral numeral = true) :
    EndsDigits rest ∧ ∃ found : NumberText, found.negative = negative ∧ found.NoLeadingZero ∧
      text = found.unsignedChars ++ rest ∧ found.numeral = numeral := by
  cases hfraction : Numeral.scanFraction (text.dropWhile Char.isDigit) with
  | mk fraction behind =>
  cases hpower : Numeral.scanExponent behind with
  | mk exponent others =>
  rw [Numeral.scan, hfraction] at hscan
  dsimp only at hscan
  rw [hpower] at hscan
  cases hscan
  obtain ⟨hbehind, hdigits, hdropped⟩ :=
    Numeral.exists_of_scanFraction (endsDigits_dropWhile text) hfraction
  obtain ⟨hends, power, hothers, rfl⟩ := Numeral.exists_of_scanExponent hbehind hpower
  simp only [isStrictNumeral, Bool.and_eq_true, Bool.or_eq_true, Bool.not_eq_true',
    List.isEmpty_eq_false_iff, beq_iff_eq, bne_iff_ne] at hstrict
  obtain ⟨⟨hwhole, hlead⟩, hpoint⟩ := hstrict
  have hwithPoint : withPoint (text.takeWhile Char.isDigit) (fraction.getD []) =
      text.takeWhile Char.isDigit ++ (fraction.map ('.' :: ·)).getD [] := by
    cases fraction with
    | none => exact (List.append_nil _).symm
    | some digits =>
      have hne : ¬digits.isEmpty := fun hnil =>
        hpoint (congrArg some (List.isEmpty_iff.mp hnil))
      exact if_neg hne
  have hfractionField :
      (if (fraction.getD []).isEmpty then none else some (fraction.getD [])) = fraction := by
    cases fraction with
    | none => rfl
    | some digits => exact if_neg fun hnil => hpoint (congrArg some (List.isEmpty_iff.mp hnil))
  refine ⟨hends, ⟨negative, text.takeWhile Char.isDigit, fraction.getD [], power, hwhole,
    fun c hc => isDigit_of_mem_takeWhile hc, ?_⟩, rfl, hlead, ?_, ?_⟩
  · intro c hc
    cases fraction with
    | none => cases hc
    | some digits => exact hdigits digits rfl c hc
  · rw [NumberText.unsignedChars, hwithPoint, List.append_assoc, List.append_assoc,
      NumberText.powerChars, ← hothers, ← hdropped, List.takeWhile_append_dropWhile]
  · rw [NumberText.numeral, hfractionField]
    rfl

/-- **A number token is a number text**, and it goes on as long as there are digits. -/
theorem exists_of_number? {text rest : List Char} {token : Option Token}
    (h : number? text = some (token, rest)) :
    EndsDigits rest ∧ ∃ found : NumberText, found.NoLeadingZero ∧ text = found.chars ++ rest ∧
      token = some (.number found.value) := by
  unfold number? at h
  cases hminus : scanMinus text with
  | mk negative unsigned =>
  cases hscan : Numeral.scan unsigned with
  | mk numeral behind =>
  rw [hminus] at h
  dsimp only at h
  rw [hscan] at h
  obtain ⟨hstrict, h⟩ := Option.ite_none_right_eq_some.mp h
  cases h
  obtain ⟨hends, found, rfl, hlead, hunsigned, rfl⟩ := exists_of_scan negative hscan hstrict
  refine ⟨hends, found, hlead, ?_, ?_⟩
  · rw [eq_of_scanMinus hminus, hunsigned, NumberText.chars, List.append_assoc]
  · rw [found.ofDecimal_numeral]

end Token
end Toolpath
