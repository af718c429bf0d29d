import Toolpath.Double.Basic

/-! # Sine and cosine of an angle within one turn

Both series are summed in fixed-point arithmetic with far more places than a double holds, and the
sum is rounded to a double once.  Forty-eight terms reach beyond the ninetieth power, whose share at
a full turn is already below `2 ^ -200`; nothing is promised for larger angles.
-/
namespace Toolpath.Double

open CorePowers

/-- The denominator of the fixed-point numbers. -/
def turnScale : Nat := 2 ^ (256 : Nat)

/-- The alternating series `term - term * x² / (k + 1) / (k + 2) + …`, in fixed point, where `term`
is the power of order `k` over its factorial. -/
def alternatingSeries (square : Nat) : Nat → Nat → Nat → Int
  | 0, _, _ => 0
  | count + 1, k, term =>
    term - alternatingSeries square count (k + 2)
      (term * square / turnScale / ((k + 1) * (k + 2)))

/-- The fixed-point value of a size. -/
def fixedPoint (angle : Magnitude) : Nat := angle.units * turnScale / unitsPerOne

/-- The double nearest to a fixed-point number. -/
def ofFixedPoint (value : Int) : Double :=
  ofRatio (value < 0) (value.natAbs * unitsPerOne) turnScale

/-- The cosine of an angle of at most one turn either way. -/
def cos : Double → Double
  | finite _ angle =>
    let x := fixedPoint angle
    ofFixedPoint (alternatingSeries (x * x / turnScale) 48 0 turnScale)
  | _ => nan

/-- The sine of an angle of at most one turn either way. -/
def sin : Double → Double
  | finite negative angle =>
    if angle.units = 0 then finite negative angle
    else
      let x := fixedPoint angle
      let value := alternatingSeries (x * x / turnScale) 48 1 x
      ofFixedPoint (if negative then -value else value)
  | _ => nan

/-- The double nearest to half a turn. -/
def pi : Double := 3.141592653589793

end Toolpath.Double
