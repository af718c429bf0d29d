import Toolpath.Rounding

/-! # Doubles

A double is a binary floating-point number of 53 significant digits.  The least positive one is
`2 ^ -1074`, and every finite one is a whole number of that *unit*, so its exact value is a natural
number of units and a sign.  A magnitude carries the proof that its units fit a double
(`Representable`); two doubles are equal as terms when they are the same number with the same sign,
and there is a single NaN.

Arithmetic is exact arithmetic on units followed by one rounding, `Double.ofRatio`: to nearest, a
tie to the even neighbour, and to infinity from `2 ^ 1024` on.

The powers of two behind the units are irreducible: proofs go through what is said of them, and no
unifier computes with numbers of two thousand binary digits.
-/
namespace Toolpath

open CorePowers

/-- The spacing of the doubles whose size is that of `n` units. -/
def spacing (n : Nat) : Nat := 2 ^ (n.log2 - 52)

/-- The units of `2 ^ 1024`, the least power of two that no double reaches. -/
@[irreducible] def overflowUnits : Nat := 2 ^ (2098 : Nat)

theorem overflowUnits_pos : 0 < overflowUnits := by decide +kernel

/-- The number of units a double can hold: a multiple of its spacing, below overflow. -/
def Representable (n : Nat) : Prop := spacing n ∣ n ∧ n < overflowUnits

instance (n : Nat) : Decidable (Representable n) := inferInstanceAs (Decidable (_ ∧ _))

theorem spacing_pos (n : Nat) : 0 < spacing n := Nat.two_pow_pos _

theorem spacing_dvd_mul_two_pow {m : Nat} (k : Nat) (h : m ≤ 2 ^ (53 : Nat)) :
    spacing (m * 2 ^ k) ∣ m * 2 ^ k := by
  rcases Nat.eq_zero_or_pos m with rfl | hm
  · simp
  rcases Nat.lt_or_eq_of_le h with hlt | rfl
  · have hne : m * 2 ^ k ≠ 0 := Nat.ne_of_gt (Nat.mul_pos hm (Nat.two_pow_pos k))
    have hlog : (m * 2 ^ k).log2 < 53 + k := by
      rw [Nat.log2_lt hne, Nat.pow_add]
      exact Nat.mul_lt_mul_of_pos_right hlt (Nat.two_pow_pos k)
    exact Nat.dvd_trans (Nat.pow_dvd_pow 2 (by omega)) (Nat.dvd_mul_left _ _)
  · rw [← Nat.pow_add, spacing, Nat.log2_two_pow]
    exact Nat.pow_dvd_pow 2 (by omega)

/-- A size that a finite double can have, counted in units. -/
structure Magnitude where
  units : Nat
  representable : Representable units
  deriving DecidableEq

theorem Magnitude.ext {a b : Magnitude} (h : a.units = b.units) : a = b := by
  cases a; cases b; cases h; rfl

/-- A binary floating-point number of 53 significant digits. -/
inductive Double
  | nan
  | infinite (negative : Bool)
  | finite (negative : Bool) (magnitude : Magnitude)
  deriving DecidableEq

namespace Double

/-- How many times one is halved to make a unit. -/
@[irreducible] def unitPlaces : Nat := 1074

/-- The number of units in one. -/
@[irreducible] def unitsPerOne : Nat := 2 ^ unitPlaces

theorem div_spacing_lt (n : Nat) : n / spacing n < 2 ^ (53 : Nat) := by
  rw [Nat.div_lt_iff_lt_mul (spacing_pos n), spacing, ← Nat.pow_add]
  exact Nat.lt_of_lt_of_le Nat.lt_log2_self (Nat.pow_le_pow_right (by decide) (by omega))

theorem roundDiv_spacing_le (tie : Tie) (num den : Nat) :
    roundDiv tie num (den * spacing (num / den)) ≤ 2 ^ (53 : Nat) := by
  refine Nat.le_trans (roundDiv_le_div_add_one tie _ _) ?_
  rw [← Nat.div_div_eq_div_mul]
  exact div_spacing_lt _

/-- The double nearest to `num / den` units. -/
def ofRatio (negative : Bool) (num den : Nat) : Double :=
  let step := spacing (num / den)
  let units := roundDiv .toEven num (den * step) * step
  if h : units < overflowUnits then
    finite negative ⟨units, spacing_dvd_mul_two_pow _ (roundDiv_spacing_le .toEven num den), h⟩
  else infinite negative

/-- A number of units that a double can hold is not rounded. -/
theorem ofRatio_mul (negative : Bool) (size : Magnitude) {den : Nat} (hden : 0 < den) :
    ofRatio negative (size.units * den) den = finite negative size := by
  obtain ⟨count, hcount⟩ := size.representable.1
  have hquot : size.units * den / den = size.units := Nat.mul_div_cancel _ hden
  have hround : roundDiv .toEven (size.units * den) (den * spacing size.units) = count := by
    have hnum : size.units * den = count * (den * spacing size.units) := by
      calc size.units * den = spacing size.units * count * den := by rw [← hcount]
        _ = _ := by rw [Nat.mul_comm (spacing _), Nat.mul_assoc, Nat.mul_comm (spacing _)]
    rw [hnum, roundDiv_mul_self _ _ (Nat.mul_pos hden (spacing_pos _))]
  have hunits : count * spacing size.units = size.units := by
    rw [Nat.mul_comm, ← hcount]
  unfold ofRatio
  simp only [hquot, hround]
  rw [dif_pos (by rw [hunits]; exact size.representable.2)]
  exact congrArg (finite negative) (Magnitude.ext hunits)

/-- A zero of either sign. -/
def zero (negative : Bool) : Double := finite negative ⟨0, Nat.dvd_zero _, overflowUnits_pos⟩

/-- The double nearest to a natural. -/
def ofNat (n : Nat) : Double := ofRatio false (n * unitsPerOne) 1

/-- The double nearest to an integer. -/
def ofInt (i : Int) : Double := ofRatio (i < 0) (i.natAbs * unitsPerOne) 1

instance (n : Nat) : OfNat Double n := ⟨ofNat n⟩

instance : OfScientific Double where
  ofScientific digits down places :=
    if down then ofRatio false (digits * unitsPerOne) (10 ^ places)
    else ofNat (digits * 10 ^ places)

instance : Inhabited Double := ⟨zero false⟩

/-- Whether the sign is a minus; NaN has none. -/
def isNegative : Double → Bool
  | nan => false
  | infinite negative => negative
  | finite negative _ => negative

/-- Neither NaN nor an infinity. -/
def isFinite : Double → Bool
  | finite _ _ => true
  | _ => false

/-- Zero of either sign. -/
def isZero : Double → Bool
  | finite _ magnitude => magnitude.units == 0
  | _ => false

/-- The exact value of a finite double in units; zero for the others. -/
def units : Double → Int
  | finite false magnitude => magnitude.units
  | finite true magnitude => -magnitude.units
  | _ => 0

/-! ## Arithmetic -/

/-- The same number with the other sign. -/
def neg : Double → Double
  | nan => nan
  | infinite negative => infinite !negative
  | finite negative magnitude => finite (!negative) magnitude

/-- The same number without its sign. -/
def abs : Double → Double
  | nan => nan
  | infinite _ => infinite false
  | finite _ magnitude => finite false magnitude

/-- A sum that is exactly zero is negative only when both terms are negative. -/
def add : Double → Double → Double
  | nan, _ => nan
  | _, nan => nan
  | infinite a, infinite b => if a = b then infinite a else nan
  | infinite a, finite _ _ => infinite a
  | finite _ _, infinite b => infinite b
  | x@(finite a _), y@(finite b _) =>
    let sum := x.units + y.units
    ofRatio (if sum = 0 then a && b else sum < 0) sum.natAbs 1

def sub (x y : Double) : Double := add x (neg y)

def mul : Double → Double → Double
  | nan, _ => nan
  | _, nan => nan
  | infinite a, infinite b => infinite (a ^^ b)
  | infinite a, finite b m => if m.units = 0 then nan else infinite (a ^^ b)
  | finite a m, infinite b => if m.units = 0 then nan else infinite (a ^^ b)
  | finite a m, finite b n => ofRatio (a ^^ b) (m.units * n.units) unitsPerOne

def div : Double → Double → Double
  | nan, _ => nan
  | _, nan => nan
  | infinite _, infinite _ => nan
  | infinite a, finite b _ => infinite (a ^^ b)
  | finite a _, infinite b => zero (a ^^ b)
  | finite a m, finite b n =>
    if n.units = 0 then if m.units = 0 then nan else infinite (a ^^ b)
    else ofRatio (a ^^ b) (m.units * unitsPerOne) n.units

instance : Neg Double := ⟨neg⟩
instance : Add Double := ⟨add⟩
instance : Sub Double := ⟨sub⟩
instance : Mul Double := ⟨mul⟩
instance : Div Double := ⟨div⟩

/-! ## Order

NaN is below nothing and above nothing; the two zeros are the same number. -/

/-- The order of the numbers. -/
def lt : Double → Double → Bool
  | nan, _ => false
  | _, nan => false
  | infinite a, infinite b => a && !b
  | infinite a, finite _ _ => a
  | finite _ _, infinite b => !b
  | x@(finite _ _), y@(finite _ _) => x.units < y.units

instance : LT Double := ⟨fun x y => lt x y = true⟩

instance (x y : Double) : Decidable (x < y) := inferInstanceAs (Decidable (lt x y = true))

/-- The integer at or below a finite double. -/
def floor (x : Double) : Int := x.units.fdiv unitsPerOne

/-- The whole part of a finite double. -/
def truncate (x : Double) : Int := x.units.tdiv unitsPerOne

end Double
end Toolpath
