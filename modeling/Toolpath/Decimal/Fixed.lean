import Toolpath.Decimal.Shortest

/-! # Doubles written with a fixed number of places

The exact value of a double is rounded once to a multiple of `10 ^ -places`, a tie away from zero.
`Double.fixedText` writes all the places; `Double.plainText` writes six and drops the zeros at the
end.  From `10 ^ 21` on both give the shortest text instead.
-/
namespace Toolpath

open CorePowers

/-- The multiple of `10 ^ -places` nearest to a value, counted in those steps. -/
def Magnitude.steps (places : Nat) (size : Magnitude) : Nat :=
  roundDiv .away (size.units * 10 ^ places) Double.unitsPerOne

/-- The last `places` decimal digits of a natural, zeros in front included. -/
def lastDigits : Nat → Nat → List Char
  | 0, _ => []
  | places + 1, n => lastDigits places (n / 10) ++ [Nat.digitChar (n % 10)]

@[simp] theorem length_lastDigits (places n : Nat) : (lastDigits places n).length = places := by
  induction places generalizing n with
  | zero => rfl
  | succ places ih => simp [lastDigits, ih]

/-- Whole digits and the digits after the point, with no point when there are none. -/
def withPoint (whole fraction : List Char) : List Char :=
  if fraction.isEmpty then whole else whole ++ '.' :: fraction

/-- The list without the zeros at its end. -/
def dropFinalZeros (digits : List Char) : List Char := (digits.reverse.dropWhile (· == '0')).reverse

namespace Double

/-- Of size `10 ^ 21` or more, or not finite at all. -/
def isHuge : Double → Bool
  | finite _ size => 10 ^ (21 : Nat) * unitsPerOne ≤ size.units
  | _ => true

theorem isHuge_finite {negative : Bool} {size : Magnitude} :
    (finite negative size).isHuge = true ↔ 10 ^ (21 : Nat) * unitsPerOne ≤ size.units := by
  simp only [isHuge, decide_eq_true_eq]

/-- A double with exactly `places` digits after the point.  A value below zero keeps its minus even
where all its digits are zero. -/
def fixedChars (places : Nat) (x : Double) : List Char :=
  match x with
  | finite _ size =>
    if x.isHuge then x.shortestChars
    else
      let steps := size.steps places
      x.signChars ++ withPoint (Nat.toDigits 10 (steps / 10 ^ places)) (lastDigits places steps)
  | _ => x.shortestChars

/-- A double with exactly `places` digits after the point. -/
def fixedText (places : Nat) (x : Double) : String := String.ofList (fixedChars places x)

/-- How many places plain text has at most. -/
def plainPlaces : Nat := 6

/-- A double with at most six digits after the point and none that is not needed. -/
def plainChars (x : Double) : List Char :=
  match x with
  | finite negative size =>
    if x.isHuge then x.shortestChars
    else
      let steps := size.steps plainPlaces
      (if negative && steps ≠ 0 then ['-'] else []) ++
        withPoint (Nat.toDigits 10 (steps / 10 ^ plainPlaces))
          (dropFinalZeros (lastDigits plainPlaces steps))
  | _ => x.shortestChars

/-- A double with at most six digits after the point and none that is not needed. -/
def plainText (x : Double) : String := String.ofList x.plainChars

end Double
end Toolpath
