import Toolpath.Decimal.Basic
import Toolpath.Text.Blank

/-! # Reading numerals

A numeral is taken apart by `Numeral.scan`, which takes the longest run of characters that can
belong to one and leaves the rest.  What a grammar allows beyond that (a leading zero, a point with
no digit on one side) is decided by the caller.  `Double.ofText?` is the loose reader: blanks
around, an optional sign, a decimal numeral with digits on at least one side of its point, or a
whole number in base sixteen, eight or two.
-/
namespace Toolpath

/-- An unsigned decimal numeral taken apart.  Without a point there is no fraction; a point with no
digit behind it has an empty one. -/
structure Numeral where
  whole : List Char
  fraction : Option (List Char)
  exponent : Int
  deriving DecidableEq, Repr

namespace Numeral

/-- A point and the digits behind it. -/
def scanFraction : List Char → Option (List Char) × List Char
  | '.' :: rest => (some (rest.takeWhile Char.isDigit), rest.dropWhile Char.isDigit)
  | rest => (none, rest)

/-- A sign and the text behind it. -/
def scanSign : List Char → Bool × List Char
  | '-' :: rest => (true, rest)
  | '+' :: rest => (false, rest)
  | rest => (false, rest)

/-- The exponent behind the letter that announces one, if digits follow. -/
def scanPower? (text : List Char) : Option (Int × List Char) :=
  let (negative, rest) := scanSign text
  let digits := rest.takeWhile Char.isDigit
  let size : Int := Nat.ofDigitChars 10 digits 0
  if digits.isEmpty then none
  else some (if negative then -size else size, rest.dropWhile Char.isDigit)

/-- A power of ten announced by a letter; zero when there is none. -/
def scanExponent : List Char → Int × List Char
  | 'e' :: rest => (scanPower? rest).getD (0, 'e' :: rest)
  | 'E' :: rest => (scanPower? rest).getD (0, 'E' :: rest)
  | rest => (0, rest)

/-- The longest numeral at the front of a text, and the text behind it. -/
def scan (text : List Char) : Numeral × List Char :=
  let whole := text.takeWhile Char.isDigit
  let (fraction, rest) := scanFraction (text.dropWhile Char.isDigit)
  let (exponent, rest) := scanExponent rest
  ({ whole, fraction, exponent }, rest)

/-- The number that a numeral stands for. -/
def toDecimal (n : Numeral) : Decimal where
  coefficient := Nat.ofDigitChars 10 (n.whole ++ n.fraction.getD []) 0
  exponent := n.exponent - (n.fraction.getD []).length

theorem length_dropWhile_le (p : Char → Bool) (text : List Char) :
    (text.dropWhile p).length ≤ text.length :=
  (List.dropWhile_sublist p).length_le

theorem length_scanFraction_le (text : List Char) : (scanFraction text).2.length ≤ text.length := by
  unfold scanFraction
  split
  · exact Nat.le_succ_of_le (length_dropWhile_le _ _)
  · exact Nat.le_refl _

theorem length_scanSign_le (text : List Char) : (scanSign text).2.length ≤ text.length := by
  unfold scanSign
  split
  · exact Nat.le_succ _
  · exact Nat.le_succ _
  · exact Nat.le_refl _

theorem length_scanPower_le {text rest : List Char} {power : Int}
    (h : scanPower? text = some (power, rest)) : rest.length ≤ text.length := by
  unfold scanPower? at h
  dsimp only at h
  split at h
  · cases h
  · cases h
    exact Nat.le_trans (length_dropWhile_le _ _) (length_scanSign_le text)

theorem length_scanExponent_le (text : List Char) : (scanExponent text).2.length ≤ text.length := by
  unfold scanExponent
  split
  · rename_i rest
    cases h : scanPower? rest with
    | none => exact Nat.le_refl _
    | some found => exact Nat.le_succ_of_le (length_scanPower_le h)
  · rename_i rest
    cases h : scanPower? rest with
    | none => exact Nat.le_refl _
    | some found => exact Nat.le_succ_of_le (length_scanPower_le h)
  · exact Nat.le_refl _

/-- A numeral with whole digits takes something off its text. -/
theorem length_scan_lt {text : List Char} (h : (scan text).1.whole ≠ []) :
    (scan text).2.length < text.length := by
  have hsplit := congrArg List.length
    (List.takeWhile_append_dropWhile (p := Char.isDigit) (l := text))
  rw [List.length_append] at hsplit
  have hwhole : 0 < (text.takeWhile Char.isDigit).length := List.length_pos_iff.mpr h
  have hrest : (scan text).2.length ≤ (text.dropWhile Char.isDigit).length :=
    Nat.le_trans (length_scanExponent_le _) (length_scanFraction_le _)
  omega

end Numeral

/-- The value of a digit in bases up to sixteen, in either case. -/
def digitValue? (c : Char) : Option Nat :=
  if '0' ≤ c ∧ c ≤ '9' then some (c.toNat - '0'.toNat)
  else if 'a' ≤ c ∧ c ≤ 'f' then some (c.toNat - 'a'.toNat + 10)
  else if 'A' ≤ c ∧ c ≤ 'F' then some (c.toNat - 'A'.toNat + 10)
  else none

/-- A whole number in a base of up to sixteen; every character has to be a digit of the base. -/
def wholeInBase? (base : Nat) (digits : List Char) : Option Nat :=
  digits.foldlM (fun value c => do
    let digit ← digitValue? c
    if digit < base then some (value * base + digit) else none) 0

namespace Double

/-- An optionally signed decimal numeral that fills its text. -/
def ofDecimalChars? (text : List Char) : Option Double :=
  let (negative, rest) := Numeral.scanSign text
  match Numeral.scan rest with
  | (numeral, []) =>
    if numeral.whole.isEmpty && (numeral.fraction.getD []).isEmpty then none
    else some (ofDecimal negative numeral.toDecimal)
  | _ => none

/-- A whole number in a base other than ten, with at least one digit. -/
def ofBaseDigits? (base : Nat) (digits : List Char) : Option Double :=
  if digits.isEmpty then none else (wholeInBase? base digits).map ofNat

/-- The double that a text denotes, blanks around it aside. -/
def ofText? (text : String) : Option Double :=
  match trim text.toList with
  | '0' :: 'x' :: digits | '0' :: 'X' :: digits => ofBaseDigits? 16 digits
  | '0' :: 'o' :: digits | '0' :: 'O' :: digits => ofBaseDigits? 8 digits
  | '0' :: 'b' :: digits | '0' :: 'B' :: digits => ofBaseDigits? 2 digits
  | numeral => ofDecimalChars? numeral

end Double
end Toolpath
