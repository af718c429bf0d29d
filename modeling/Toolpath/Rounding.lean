/-! # Rounding a quotient of naturals

Every number this library computes or writes is an exact quotient of two naturals that is rounded
once, to the nearest natural.  `roundDiv` is that rounding.  What is proved here places its result:
it is the quotient or the quotient plus one (`div_le_roundDiv`, `roundDiv_le_div_add_one`), never
further than half a unit away (`two_mul_roundDiv_le`, `le_two_mul_roundDiv`), and it is the quotient
itself when the division is exact (`roundDiv_mul_self`).
-/
namespace Toolpath

/-- Powers of naturals are those of core where `CorePowers` is open, whatever else is in scope.  A
literal exponent has to say that it is a natural. -/
scoped instance (priority := 2000) CorePowers.powNat : Pow Nat Nat := instPowNat

/-- Which neighbour a value exactly halfway between two naturals goes to. -/
inductive Tie
  | toEven
  | away
  deriving DecidableEq, Repr

/-- The natural nearest to `num / den`. -/
def roundDiv (tie : Tie) (num den : Nat) : Nat :=
  if 2 * (num % den) < den then num / den
  else if den < 2 * (num % den) then num / den + 1
  else match tie with
    | .toEven => num / den + num / den % 2
    | .away => num / den + 1

theorem div_le_roundDiv (tie : Tie) (num den : Nat) : num / den ≤ roundDiv tie num den := by
  unfold roundDiv
  split
  · exact Nat.le_refl _
  · split
    · exact Nat.le_succ _
    · cases tie
      · exact Nat.le_add_right _ _
      · exact Nat.le_succ _

theorem roundDiv_le_div_add_one (tie : Tie) (num den : Nat) :
    roundDiv tie num den ≤ num / den + 1 := by
  unfold roundDiv
  split
  · exact Nat.le_succ _
  · split
    · exact Nat.le_refl _
    · cases tie
      · dsimp only; omega
      · exact Nat.le_refl _

/-- The result exceeds the quotient by at most half a unit. -/
theorem two_mul_roundDiv_le (tie : Tie) (num den : Nat) :
    2 * (roundDiv tie num den * den) ≤ 2 * num + den := by
  have hsplit : den * (num / den) + num % den = num := Nat.div_add_mod num den
  have hcomm : num / den * den = den * (num / den) := Nat.mul_comm _ _
  have hsucc : (num / den + 1) * den = den * (num / den) + den := by
    rw [Nat.succ_mul, hcomm]
  unfold roundDiv
  split
  · rw [hcomm]; omega
  · split
    · rw [hsucc]; omega
    · cases tie
      · dsimp only
        rcases Nat.mod_two_eq_zero_or_one (num / den) with he | he
        · rw [he, Nat.add_zero, hcomm]; omega
        · rw [he, hsucc]; omega
      · dsimp only; rw [hsucc]; omega

/-- The quotient exceeds the result by at most half a unit. -/
theorem le_two_mul_roundDiv (tie : Tie) (num : Nat) {den : Nat} (hden : 0 < den) :
    2 * num ≤ 2 * (roundDiv tie num den * den) + den := by
  have hsplit : den * (num / den) + num % den = num := Nat.div_add_mod num den
  have hmod : num % den < den := Nat.mod_lt num hden
  have hcomm : num / den * den = den * (num / den) := Nat.mul_comm _ _
  have hsucc : (num / den + 1) * den = den * (num / den) + den := by
    rw [Nat.succ_mul, hcomm]
  unfold roundDiv
  split
  · rw [hcomm]; omega
  · split
    · rw [hsucc]; omega
    · cases tie
      · dsimp only
        rcases Nat.mod_two_eq_zero_or_one (num / den) with he | he
        · rw [he, Nat.add_zero, hcomm]; omega
        · rw [he, hsucc]; omega
      · dsimp only; rw [hsucc]; omega

/-- An exact division is not disturbed. -/
@[simp] theorem roundDiv_mul_self (tie : Tie) (n : Nat) {den : Nat} (hden : 0 < den) :
    roundDiv tie (n * den) den = n := by
  unfold roundDiv
  rw [Nat.mul_mod_left, if_pos (by omega), Nat.mul_div_cancel _ hden]

end Toolpath
