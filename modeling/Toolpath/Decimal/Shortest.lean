import Toolpath.Decimal.Basic

/-! # The shortest text of a double

Among all decimals that read back to a double, the one written has the fewest digits and, of those,
lies nearest.  The search tries one digit, two digits, and so on; at each length only the two grid
points next to the value can be the answer, because the decimals that read back form an interval
around it.  Should seventeen digits not be enough, the exact value is written, so what is found
always reads back (`readsBack_reading`).
-/
namespace Toolpath

open CorePowers

namespace Magnitude

/-- The least `n` such that the value is below `10 ^ n`. -/
def pointPosition (size : Magnitude) : Int :=
  if Double.unitsPerOne ≤ size.units then digitCount (size.units / Double.unitsPerOne)
  else 1 - (digitCount ((Double.unitsPerOne - 1) / size.units) : Int)

/-- The two multiples of `10 ^ exponent` next to a value, the nearer one first. -/
def neighbours (size : Magnitude) (exponent : Int) : List Decimal :=
  let num := size.units * 10 ^ (-exponent).toNat
  let den := Double.unitsPerOne * 10 ^ exponent.toNat
  let near := roundDiv .toEven num den
  let far := if near = num / den then near + 1 else near - 1
  [⟨near, exponent⟩, ⟨far, exponent⟩]

/-- Whether the double nearest to a decimal is the given one. -/
def readsBack (size : Magnitude) (d : Decimal) : Bool :=
  Double.ofDecimal false d = .finite false size

/-- The value itself, with as many digits as it takes. -/
def exactDecimal (size : Magnitude) : Decimal :=
  ⟨size.units * 5 ^ Double.unitPlaces, -Double.unitPlaces⟩

/-- The first decimal that reads back, by number of digits and then by distance. -/
def firstReadingBack? (size : Magnitude) : Option Decimal :=
  (List.range 17).findSome? fun digits =>
    (size.neighbours (size.pointPosition - (digits + 1 : Nat))).find? size.readsBack

/-- A decimal that reads back, of as few digits as the search can do with. -/
def reading (size : Magnitude) : Decimal := size.firstReadingBack?.getD size.exactDecimal

/-- The decimal of fewest digits that reads back to a double. -/
def shortest (size : Magnitude) : Decimal := size.reading.stripZeros

theorem numerator_exactDecimal (size : Magnitude) :
    size.exactDecimal.numerator * Double.unitsPerOne =
      size.units * size.exactDecimal.denominator := by
  have hup : (-(Double.unitPlaces : Int)).toNat = 0 := Int.toNat_neg_natCast _
  have hdown : (- -(Double.unitPlaces : Int)).toNat = Double.unitPlaces := by
    rw [Int.neg_neg, Int.toNat_natCast]
  simp only [Decimal.numerator, Decimal.denominator, exactDecimal, hup, hdown]
  rw [Nat.pow_zero, Nat.mul_one, Double.unitsPerOne, Nat.mul_assoc, ← Nat.mul_pow]

theorem readsBack_exactDecimal (size : Magnitude) : size.readsBack size.exactDecimal = true := by
  rw [readsBack, decide_eq_true_iff, Double.ofDecimal]
  rcases Nat.eq_zero_or_pos size.units with hzero | hpos
  · rw [if_pos (.inl (by rw [exactDecimal, hzero, Nat.zero_mul]))]
    exact congrArg (Double.finite false) (Magnitude.ext hzero.symm)
  · have hlarge : 10 ^ (700 : Nat) ≤ size.exactDecimal.coefficient :=
      Nat.le_trans (by decide +kernel) (Nat.le_mul_of_pos_left _ hpos)
    have hdigits : 700 < digitCount size.exactDecimal.coefficient := by
      rw [← Nat.not_le, digitCount_le_iff, Nat.not_lt]
      exact hlarge
    have hexponent : size.exactDecimal.exponent = -1074 := by
      rw [exactDecimal, Double.unitPlaces]
      rfl
    have hne : size.exactDecimal.coefficient ≠ 0 := fun h => by
      rw [h, digitCount_zero] at hdigits
      exact Nat.not_lt_zero _ hdigits
    rw [if_neg (by omega), if_neg (by omega), numerator_exactDecimal,
      Double.ofRatio_mul false size (Decimal.denominator_pos _)]

/-- The search ends with a decimal that reads back. -/
theorem readsBack_reading (size : Magnitude) : size.readsBack size.reading = true := by
  rw [reading]
  cases h : size.firstReadingBack? with
  | none => exact size.readsBack_exactDecimal
  | some d =>
    obtain ⟨_, _, hfind⟩ := List.exists_of_findSome?_eq_some h
    exact List.find?_some hfind

end Magnitude

/-- The largest position of the decimal point that is written without an exponent. -/
def Decimal.widestPosition : Int := 21

/-- How far the first digit may lie behind the point without an exponent being written. -/
def Decimal.deepestPosition : Int := -6

/-- A decimal in plain notation where its point lies near its digits, and with one digit before the
point and a signed power of ten elsewhere. -/
def Decimal.toChars (d : Decimal) : List Char :=
  let digits := Nat.toDigits 10 d.coefficient
  let position := d.exponent + digits.length
  if 0 < position ∧ position ≤ widestPosition then
    let before := position.toNat
    if digits.length ≤ before then digits ++ List.replicate (before - digits.length) '0'
    else digits.take before ++ '.' :: digits.drop before
  else if deepestPosition < position ∧ position ≤ 0 then
    '0' :: '.' :: (List.replicate (-position).toNat '0' ++ digits)
  else
    let lead := if digits.length ≤ 1 then digits else digits.take 1 ++ '.' :: digits.drop 1
    let power := position - 1
    lead ++ 'e' :: (if power < 0 then '-' else '+') :: Nat.toDigits 10 power.natAbs

namespace Double

/-- A minus for the doubles below zero, nothing for the others; a zero has no sign. -/
def signChars (x : Double) : List Char := if x.isNegative && !x.isZero then ['-'] else []

/-- The shortest text that reads back to the same double, the sign of zero apart. -/
def shortestChars (x : Double) : List Char :=
  match x with
  | nan => "NaN".toList
  | infinite _ => x.signChars ++ "Infinity".toList
  | finite _ size => x.signChars ++ size.shortest.toChars

/-- The shortest text that reads back to the same double, the sign of zero apart. -/
def shortestText (x : Double) : String := String.ofList x.shortestChars

end Double
end Toolpath
