import Toolpath.Decimal.Fixed
import Toolpath.Json.Token

/-! # Number texts

A number text is what a writer may put down for a number: an optional minus, digits, an optional
point with digits behind it, and an optional power of ten.  Whatever follows it, as long as the
numeral cannot go on there, the scanner takes exactly the text off the front
(`NumberText.scan_append`).  So both readers of numbers give its value: the loose one
(`NumberText.ofText?_chars`) and the one for tokens (`NumberText.number?_append`).
-/
namespace Toolpath

/-- A power of ten announced by a letter, with at least one digit. -/
structure PowerText where
  capital : Bool
  /-- Whether the sign is a minus, where there is a sign. -/
  minus : Option Bool
  digits : List Char
  digits_ne_nil : digits ≠ []
  isDigit_digits : ∀ c ∈ digits, c.isDigit = true

namespace PowerText

def letter (power : PowerText) : Char := if power.capital then 'E' else 'e'

def signChars (power : PowerText) : List Char :=
  match power.minus with
  | none => []
  | some true => ['-']
  | some false => ['+']

def chars (power : PowerText) : List Char := power.letter :: (power.signChars ++ power.digits)

def value (power : PowerText) : Int :=
  let size : Int := Nat.ofDigitChars 10 power.digits 0
  if power.minus = some true then -size else size

end PowerText

/-- A number as it may be written.  Where there are digits behind the point, there is a point. -/
structure NumberText where
  negative : Bool
  whole : List Char
  fraction : List Char
  power : Option PowerText
  whole_ne_nil : whole ≠ []
  isDigit_whole : ∀ c ∈ whole, c.isDigit = true
  isDigit_fraction : ∀ c ∈ fraction, c.isDigit = true

namespace NumberText

def powerChars (text : NumberText) : List Char := (text.power.map PowerText.chars).getD []

/-- The power of ten behind the digits; zero where none is written. -/
def exponent (text : NumberText) : Int := (text.power.map PowerText.value).getD 0

/-- The characters behind the minus. -/
def unsignedChars (text : NumberText) : List Char :=
  withPoint text.whole text.fraction ++ text.powerChars

def chars (text : NumberText) : List Char :=
  (if text.negative then ['-'] else []) ++ text.unsignedChars

/-- The double nearest to the number that is written. -/
def value (text : NumberText) : Double :=
  .ofDecimal text.negative
    ⟨Nat.ofDigitChars 10 (text.whole ++ text.fraction) 0, text.exponent - text.fraction.length⟩

/-- The parts of the numeral behind the minus. -/
def numeral (text : NumberText) : Numeral where
  whole := text.whole
  fraction := if text.fraction.isEmpty then none else some text.fraction
  exponent := text.exponent

/-- No zero stands in front of another digit. -/
def NoLeadingZero (text : NumberText) : Prop := text.whole.length = 1 ∨ text.whole.head? ≠ some '0'

end NumberText

/-- A text at whose front a numeral does not go on. -/
def EndsNumeral (text : List Char) : Prop :=
  ∀ c ∈ text.head?, c.isDigit = false ∧ c ≠ '.' ∧ c ≠ 'e' ∧ c ≠ 'E'

theorem endsNumeral_nil : EndsNumeral [] := fun _ h => by cases h

/-- A text that does not begin with a digit. -/
def EndsDigits (text : List Char) : Prop := ∀ c ∈ text.head?, c.isDigit = false

theorem EndsNumeral.endsDigits {text : List Char} (h : EndsNumeral text) : EndsDigits text :=
  fun c hc => (h c hc).1

theorem endsDigits_cons {c : Char} {text : List Char} (h : c.isDigit = false) :
    EndsDigits (c :: text) := by
  intro d hd
  cases hd
  exact h

/-! ## Scanning -/

/-- A run of characters ends where a text begins that cannot go on with it. -/
theorem takeWhile_append_eq {p : Char → Bool} {front rest : List Char}
    (h : ∀ c ∈ front, p c = true) (hrest : ∀ c ∈ rest.head?, p c = false) :
    (front ++ rest).takeWhile p = front := by
  rw [List.takeWhile_append_of_pos h]
  cases rest with
  | nil => exact List.append_nil _
  | cons c rest =>
    rw [List.takeWhile_cons_of_neg (Bool.eq_false_iff.mp (hrest c rfl)), List.append_nil]

theorem dropWhile_append_eq {p : Char → Bool} {front rest : List Char}
    (h : ∀ c ∈ front, p c = true) (hrest : ∀ c ∈ rest.head?, p c = false) :
    (front ++ rest).dropWhile p = rest := by
  rw [List.dropWhile_append_of_pos h]
  cases rest with
  | nil => rfl
  | cons c rest => exact List.dropWhile_cons_of_neg (Bool.eq_false_iff.mp (hrest c rfl))

/-- A sign is found only where one stands. -/
theorem Numeral.scanSign_of_isDigit {c : Char} {rest : List Char} (h : c.isDigit = true) :
    scanSign (c :: rest) = (false, c :: rest) := by
  unfold scanSign
  split
  · rename_i heq; cases heq; cases h
  · rename_i heq; cases heq; cases h
  · rfl

namespace PowerText

/-- The digits of a power are a digit and more. -/
theorem exists_digits_eq_cons (power : PowerText) :
    ∃ first others, power.digits = first :: others ∧ first.isDigit = true := by
  cases hdigits : power.digits with
  | nil => exact absurd hdigits power.digits_ne_nil
  | cons first others =>
    have hfirst := power.isDigit_digits first (by rw [hdigits]; exact List.mem_cons_self)
    exact ⟨first, others, rfl, hfirst⟩

theorem scanSign_append (power : PowerText) (rest : List Char) :
    Numeral.scanSign (power.signChars ++ power.digits ++ rest) =
      (power.minus == some true, power.digits ++ rest) := by
  obtain ⟨first, others, hdigits, hfirst⟩ := power.exists_digits_eq_cons
  unfold signChars
  cases power.minus with
  | none =>
    rw [List.nil_append, hdigits]
    exact Numeral.scanSign_of_isDigit hfirst
  | some minus => cases minus <;> rfl

theorem scanPower?_append (power : PowerText) {rest : List Char} (hrest : EndsDigits rest) :
    Numeral.scanPower? (power.signChars ++ power.digits ++ rest) = some (power.value, rest) := by
  have hempty : power.digits.isEmpty = false := List.isEmpty_eq_false_iff.mpr power.digits_ne_nil
  rw [Numeral.scanPower?, scanSign_append]
  dsimp only
  rw [takeWhile_append_eq power.isDigit_digits hrest,
    dropWhile_append_eq power.isDigit_digits hrest, hempty, if_neg Bool.false_ne_true]
  simp only [value, beq_iff_eq]

theorem scanExponent_append (power : PowerText) {rest : List Char} (hrest : EndsDigits rest) :
    Numeral.scanExponent (power.chars ++ rest) = (power.value, rest) := by
  rw [chars, letter, List.cons_append]
  split
  · rw [Numeral.scanExponent, scanPower?_append power hrest, Option.getD_some]
  · rw [Numeral.scanExponent, scanPower?_append power hrest, Option.getD_some]

end PowerText

namespace NumberText
variable (text : NumberText)

theorem endsDigits_powerChars_append {rest : List Char} (hrest : EndsNumeral rest) :
    EndsDigits (text.powerChars ++ rest) := by
  unfold powerChars
  cases text.power with
  | none => exact hrest.endsDigits
  | some power =>
    refine endsDigits_cons ?_
    cases hcapital : power.capital <;> simp only [PowerText.letter, hcapital] <;> rfl

theorem scanExponent_append {rest : List Char} (hrest : EndsNumeral rest) :
    Numeral.scanExponent (text.powerChars ++ rest) = (text.exponent, rest) := by
  unfold powerChars exponent
  cases text.power with
  | some power => exact power.scanExponent_append hrest.endsDigits
  | none =>
    rw [Option.map_none, Option.getD_none, List.nil_append, Option.map_none, Option.getD_none]
    unfold Numeral.scanExponent
    split
    · exact absurd rfl (hrest 'e' rfl).2.2.1
    · exact absurd rfl (hrest 'E' rfl).2.2.2
    · rfl

/-- What stands behind the whole digits is the point with its digits, if there are any. -/
theorem scanFraction_append {rest : List Char} (hrest : EndsNumeral rest) :
    ∃ behind, text.unsignedChars ++ rest = text.whole ++ behind ∧ EndsDigits behind ∧
      Numeral.scanFraction behind = (text.numeral.fraction, text.powerChars ++ rest) := by
  have hpower := text.endsDigits_powerChars_append hrest
  unfold unsignedChars withPoint numeral
  cases hfraction : text.fraction with
  | nil =>
    refine ⟨text.powerChars ++ rest, List.append_assoc _ _ _, hpower, ?_⟩
    -- neither the letter of a power nor the text behind is a point
    unfold Numeral.scanFraction
    split
    · rename_i heq
      refine absurd heq ?_
      unfold powerChars
      cases text.power with
      | none => exact fun heq => (hrest '.' (by
          rw [show rest = _ from heq]; rfl)).2.1 rfl
      | some power =>
        intro heq
        have hletter : power.letter = '.' := (List.cons.inj heq).1
        cases hcapital : power.capital <;> simp only [PowerText.letter, hcapital] at hletter <;>
          exact absurd hletter (by decide)
    · rfl
  | cons digit digits =>
    refine ⟨'.' :: (digit :: digits ++ (text.powerChars ++ rest)), ?_, endsDigits_cons rfl, ?_⟩
    · simp only [List.isEmpty_cons, Bool.false_eq_true, if_false, List.append_assoc,
        List.cons_append]
    · have hdigits : ∀ c ∈ digit :: digits, c.isDigit = true := hfraction ▸ text.isDigit_fraction
      rw [Numeral.scanFraction, takeWhile_append_eq hdigits hpower,
        dropWhile_append_eq hdigits hpower]
      rfl

/-- **The scanner takes exactly the text.** -/
theorem scan_append {rest : List Char} (hrest : EndsNumeral rest) :
    Numeral.scan (text.unsignedChars ++ rest) = (text.numeral, rest) := by
  obtain ⟨behind, hsplit, hends, hfraction⟩ := text.scanFraction_append hrest
  rw [Numeral.scan, hsplit, takeWhile_append_eq text.isDigit_whole hends,
    dropWhile_append_eq text.isDigit_whole hends, hfraction]
  dsimp only
  rw [text.scanExponent_append hrest]
  rfl

theorem numeral_fraction_getD : text.numeral.fraction.getD [] = text.fraction := by
  unfold numeral
  cases text.fraction <;> rfl

theorem ofDecimal_numeral :
    Double.ofDecimal text.negative text.numeral.toDecimal = text.value := by
  rw [Numeral.toDecimal, numeral_fraction_getD]
  rfl

/-- The characters behind the minus begin with a digit. -/
theorem exists_unsignedChars_eq_cons :
    ∃ first others, text.unsignedChars = first :: others ∧ first.isDigit = true := by
  cases hwhole : text.whole with
  | nil => exact absurd hwhole text.whole_ne_nil
  | cons first others =>
    have hfirst := text.isDigit_whole first (by rw [hwhole]; exact List.mem_cons_self)
    unfold unsignedChars withPoint
    rw [hwhole]
    split
    · exact ⟨first, _, List.cons_append, hfirst⟩
    · exact ⟨first, _, by rw [List.cons_append, List.cons_append], hfirst⟩

/-! ## Reading -/

theorem scanSign_chars :
    Numeral.scanSign text.chars = (text.negative, text.unsignedChars) := by
  obtain ⟨first, others, hchars, hfirst⟩ := text.exists_unsignedChars_eq_cons
  unfold chars
  cases text.negative with
  | true => rfl
  | false =>
    rw [if_neg Bool.false_ne_true, List.nil_append, hchars]
    exact Numeral.scanSign_of_isDigit hfirst

theorem ofDecimalChars?_chars : Double.ofDecimalChars? text.chars = some text.value := by
  have hscan := text.scan_append endsNumeral_nil
  rw [List.append_nil] at hscan
  have hwhole : text.numeral.whole.isEmpty = false :=
    List.isEmpty_eq_false_iff.mpr text.whole_ne_nil
  rw [Double.ofDecimalChars?, scanSign_chars]
  dsimp only
  rw [hscan]
  dsimp only
  rw [hwhole, Bool.false_and, if_neg Bool.false_ne_true, ofDecimal_numeral]

end NumberText

/-- The characters that number texts are made of. -/
def IsNumeralChar (c : Char) : Prop :=
  c.isDigit = true ∨ c = '-' ∨ c = '+' ∨ c = '.' ∨ c = 'e' ∨ c = 'E'

/-- The printable ASCII characters are not blank. -/
theorem isBlank_eq_false_of_toNat {c : Char} (hlow : 32 < c.toNat) (hhigh : c.toNat < 128) :
    isBlank c = false := by
  simp only [isBlank, blankRanges, List.any_cons, List.any_nil, Bool.or_false, Bool.or_eq_false_iff,
    Bool.and_eq_false_iff, decide_eq_false_iff_not]
  omega

theorem isBlank_of_isDigit {c : Char} (h : c.isDigit = true) : isBlank c = false := by
  obtain ⟨hlow, hhigh⟩ := Char.isDigit_iff_toNat.mp h
  have hzero : '0'.toNat = 48 := rfl
  have hnine : '9'.toNat = 57 := rfl
  exact isBlank_eq_false_of_toNat (by omega) (by omega)

theorem IsNumeralChar.isBlank {c : Char} (h : IsNumeralChar c) : isBlank c = false := by
  rcases h with h | rfl | rfl | rfl | rfl | rfl
  · exact isBlank_of_isDigit h
  all_goals rfl

theorem dropWhile_isBlank_eq_self {text : List Char} (h : ∀ c ∈ text, isBlank c = false) :
    text.dropWhile isBlank = text := by
  cases text with
  | nil => rfl
  | cons c text =>
    exact List.dropWhile_cons_of_neg (Bool.eq_false_iff.mp (h c List.mem_cons_self))

theorem trim_eq_self {text : List Char} (h : ∀ c ∈ text, isBlank c = false) : trim text = text := by
  rw [trim, dropWhile_isBlank_eq_self h, dropWhile_isBlank_eq_self, List.reverse_reverse]
  exact fun c hc => h c (List.mem_reverse.mp hc)

/-- A text of numeral characters has no blanks around it and no base other than ten. -/
theorem Double.ofText?_of_isNumeralChar {text : List Char} (h : ∀ c ∈ text, IsNumeralChar c) :
    ofText? (String.ofList text) = ofDecimalChars? text := by
  have hsecond {c d : Char} {digits : List Char} (heq : text = c :: d :: digits) :
      IsNumeralChar d := h d (by rw [heq]; exact List.mem_cons_of_mem _ List.mem_cons_self)
  have hletter {d : Char} (hd : IsNumeralChar d)
      (hmem : d ∈ ['x', 'X', 'o', 'O', 'b', 'B']) : False := by
    simp only [List.mem_cons, List.not_mem_nil, or_false] at hmem
    rcases hmem with rfl | rfl | rfl | rfl | rfl | rfl <;>
      rcases hd with hd | hd | hd | hd | hd | hd <;> cases hd
  rw [ofText?, String.toList_ofList, trim_eq_self fun c hc => (h c hc).isBlank]
  split
  · exact (hletter (hsecond rfl) (by decide)).elim
  · exact (hletter (hsecond rfl) (by decide)).elim
  · exact (hletter (hsecond rfl) (by decide)).elim
  · exact (hletter (hsecond rfl) (by decide)).elim
  · exact (hletter (hsecond rfl) (by decide)).elim
  · exact (hletter (hsecond rfl) (by decide)).elim
  · rfl

theorem isNumeralChar_of_mem_withPoint {whole fraction : List Char} {c : Char}
    (hwhole : ∀ d ∈ whole, d.isDigit = true) (hfraction : ∀ d ∈ fraction, d.isDigit = true)
    (h : c ∈ withPoint whole fraction) : IsNumeralChar c := by
  unfold withPoint at h
  split at h
  · exact .inl (hwhole c h)
  · rw [List.mem_append, List.mem_cons] at h
    rcases h with h | rfl | h
    · exact .inl (hwhole c h)
    · exact .inr (.inr (.inr (.inl rfl)))
    · exact .inl (hfraction c h)

theorem PowerText.isNumeralChar {power : PowerText} {c : Char} (h : c ∈ power.chars) :
    IsNumeralChar c := by
  rw [chars, List.mem_cons, List.mem_append] at h
  rcases h with rfl | h | h
  · unfold letter
    split
    · exact .inr (.inr (.inr (.inr (.inr rfl))))
    · exact .inr (.inr (.inr (.inr (.inl rfl))))
  · unfold signChars at h
    split at h
    · cases h
    · exact .inr (.inl (List.mem_singleton.mp h))
    · exact .inr (.inr (.inl (List.mem_singleton.mp h)))
  · exact .inl (power.isDigit_digits c h)

namespace NumberText
variable (text : NumberText)

theorem isNumeralChar {text : NumberText} {c : Char} (h : c ∈ text.chars) : IsNumeralChar c := by
  rw [chars, unsignedChars, List.mem_append, List.mem_append] at h
  rcases h with h | h | h
  · split at h
    · exact .inr (.inl (List.mem_singleton.mp h))
    · cases h
  · exact isNumeralChar_of_mem_withPoint text.isDigit_whole text.isDigit_fraction h
  · unfold powerChars at h
    cases hpower : text.power with
    | none => rw [hpower] at h; cases h
    | some power => rw [hpower] at h; exact power.isNumeralChar h

/-- **The loose reader gives the value of a number text.** -/
theorem ofText?_chars : Double.ofText? (String.ofList text.chars) = some text.value := by
  rw [Double.ofText?_of_isNumeralChar fun _ h => isNumeralChar h, ofDecimalChars?_chars]

theorem scanMinus_chars_append (rest : List Char) :
    Token.scanMinus (text.chars ++ rest) = (text.negative, text.unsignedChars ++ rest) := by
  obtain ⟨first, others, hchars, hfirst⟩ := text.exists_unsignedChars_eq_cons
  unfold chars
  cases text.negative with
  | true => rfl
  | false =>
    rw [if_neg Bool.false_ne_true, List.nil_append, hchars]
    unfold Token.scanMinus
    split
    · rename_i heq; cases heq; cases hfirst
    · rfl

theorem isStrictNumeral_numeral (h : text.NoLeadingZero) :
    Token.isStrictNumeral text.numeral = true := by
  have hwhole : text.numeral.whole.isEmpty = false :=
    List.isEmpty_eq_false_iff.mpr text.whole_ne_nil
  have hfraction : text.numeral.fraction ≠ some [] := by
    unfold numeral
    cases text.fraction <;> simp
  have hlead : text.numeral.whole.length = 1 ∨ text.numeral.whole.head? ≠ some '0' := h
  simp only [Token.isStrictNumeral, hwhole, Bool.not_false, Bool.true_and, Bool.and_eq_true,
    Bool.or_eq_true, beq_iff_eq, bne_iff_ne]
  exact ⟨hlead, hfraction⟩

/-- **A number token is read up to its end.** -/
theorem number?_append {rest : List Char} (h : text.NoLeadingZero) (hrest : EndsNumeral rest) :
    Token.number? (text.chars ++ rest) = some (some (.number text.value), rest) := by
  rw [Token.number?, scanMinus_chars_append]
  dsimp only
  rw [text.scan_append hrest]
  dsimp only
  rw [if_pos (text.isStrictNumeral_numeral h), ofDecimal_numeral]

end NumberText
end Toolpath
