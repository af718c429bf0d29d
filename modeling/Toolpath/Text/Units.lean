/-! # Characters from 16-bit units

An escape in a quoted text names one 16-bit unit, and a character beyond the first 65536 is written
as two of them, a high and a low surrogate.  `joinUnits` puts such pairs together.  A surrogate
without its partner is no character and becomes the replacement character.
-/
namespace Toolpath

def isHighSurrogate (unit : Nat) : Bool := 0xD800 ≤ unit && unit < 0xDC00

def isLowSurrogate (unit : Nat) : Bool := 0xDC00 ≤ unit && unit < 0xE000

/-- The code point that a high and a low surrogate stand for. -/
def pairedCodePoint (high low : Nat) : Nat := 0x10000 + (high - 0xD800) * 0x400 + (low - 0xDC00)

/-- The character of a code point, or the replacement character. -/
def charOfCodePoint (n : Nat) : Char := if n.isValidChar then Char.ofNat n else '\uFFFD'

/-- The characters of a sequence of code points in which surrogates stand for the characters that
they encode in pairs. -/
def joinUnits : List Nat → List Char
  | [] => []
  | [unit] => [charOfCodePoint unit]
  | unit :: next :: rest =>
    if isHighSurrogate unit && isLowSurrogate next then
      charOfCodePoint (pairedCodePoint unit next) :: joinUnits rest
    else charOfCodePoint unit :: joinUnits (next :: rest)

theorem charOfCodePoint_toNat (c : Char) : charOfCodePoint c.toNat = c := by
  have h : c.toNat.isValidChar := c.valid
  rw [charOfCodePoint, if_pos h, Char.ofNat_toNat]

theorem not_isHighSurrogate (c : Char) : isHighSurrogate c.toNat = false := by
  have h : c.toNat.isValidChar := c.valid
  rw [Nat.isValidChar] at h
  rw [isHighSurrogate, Bool.and_eq_false_iff, decide_eq_false_iff_not, decide_eq_false_iff_not]
  omega

/-- Characters survive being taken as code points. -/
@[simp] theorem joinUnits_map_toNat (text : List Char) :
    joinUnits (text.map Char.toNat) = text := by
  match text with
  | [] => rfl
  | [c] => simp [joinUnits, charOfCodePoint_toNat]
  | c :: d :: rest =>
    have ih := joinUnits_map_toNat (d :: rest)
    rw [List.map_cons] at ih
    rw [List.map_cons, List.map_cons, joinUnits, not_isHighSurrogate, Bool.false_and,
      if_neg Bool.false_ne_true, charOfCodePoint_toNat, ih]

end Toolpath
