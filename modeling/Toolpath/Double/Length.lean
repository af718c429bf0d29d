import Toolpath.Double.Basic

/-! # Square roots and lengths

`Double.sqrt` is correctly rounded.  `Double.length` is the Euclidean length of a list of
components: every component is divided by the largest, the squares are summed with the rounding
error of each addition carried into the next one, and the root of the sum is scaled back.  The
order of those steps fixes the last bits of the result.
-/
namespace Toolpath.Double

/-- The double nearest to the square root.  The root of `n` units is `sqrt (n * unitsPerOne)` units,
far above the spacing of doubles, so half a unit stands for whatever its integer part leaves. -/
def sqrt : Double → Double
  | nan => nan
  | infinite negative => if negative then nan else infinite false
  | finite negative magnitude =>
    if magnitude.units = 0 then finite negative magnitude
    else if negative then nan
    else
      let square := magnitude.units * unitsPerOne
      let root := square.sqrt
      ofRatio false (if root * root = square then 2 * root else 2 * root + 1) 2

/-- A running sum and the part of the last term that its rounding lost, with the sign turned. -/
structure RunningSum where
  total : Double
  excess : Double

/-- One term added, corrected by what the addition before it lost. -/
def RunningSum.add (sum : RunningSum) (term : Double) : RunningSum :=
  let corrected := term - sum.excess
  let total := sum.total + corrected
  { total, excess := total - sum.total - corrected }

/-- The sum of a list, each addition corrected by the rounding error of the one before. -/
def compensatedSum (terms : List Double) : Double :=
  (terms.foldl RunningSum.add { total := 0, excess := 0 }).total

/-- The larger of two doubles, the first when neither is larger. -/
def max (x y : Double) : Double := if x < y then y else x

def isInfinite : Double → Bool
  | infinite _ => true
  | _ => false

/-- The Euclidean length of a list of components.  An infinite component decides before NaN. -/
def length (components : List Double) : Double :=
  let sizes := components.map abs
  if sizes.any isInfinite then infinite false
  else if sizes.contains nan then nan
  else
    let largest := sizes.foldl max 0
    if largest.isZero then 0
    else
      let square (size : Double) := size / largest * (size / largest)
      sqrt (compensatedSum (sizes.map square)) * largest

end Toolpath.Double
