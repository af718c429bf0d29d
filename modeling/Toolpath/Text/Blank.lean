/-! # Blank characters

The characters that loose text may carry around a number or a keyword: the Unicode space separators,
the line and paragraph separators, the five ASCII controls from tab to carriage return and the
zero-width no-break space.  `trim` takes them off both ends.
-/
namespace Toolpath

/-- The blank characters as inclusive ranges of code points, ascending. -/
def blankRanges : List (Nat × Nat) :=
  [(0x0009, 0x000D), (0x0020, 0x0020), (0x00A0, 0x00A0), (0x1680, 0x1680), (0x2000, 0x200A),
    (0x2028, 0x2029), (0x202F, 0x202F), (0x205F, 0x205F), (0x3000, 0x3000), (0xFEFF, 0xFEFF)]

def isBlank (c : Char) : Bool :=
  blankRanges.any fun (first, last) => first ≤ c.toNat && c.toNat ≤ last

/-- The text between the first and the last character that is not blank. -/
def trim (text : List Char) : List Char :=
  ((text.dropWhile isBlank).reverse.dropWhile isBlank).reverse

end Toolpath
