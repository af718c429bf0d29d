import Toolpath.Decimal.Numeral
import Toolpath.Json.Basic

/-! # Tokens

What the characters of a JSON text say before its structure is looked at.  A `Lexer` is one way of
spelling tokens: a step takes at least one character off the front of the text and yields a token,
or nothing for what stands between tokens.  `Lexer.tokens` repeats the step to the end.  The steps
that every spelling shares are here too (`Token.plain?`): words, numbers and punctuation.
-/
namespace Toolpath

/-- A bracket, a separator, or a value that has no parts. -/
inductive Token
  | openList
  | closeList
  | openRecord
  | closeRecord
  | comma
  | colon
  | null
  | bool (value : Bool)
  | number (value : Double)
  | text (value : String)
  deriving DecidableEq

/-- What one lexical step finds: a token or a gap, and the text behind it. -/
abbrev Step := Option (Option Token × List Char)

/-- A way of spelling tokens. -/
structure Lexer where
  step : List Char → Step
  length_rest_lt : ∀ {text token rest}, step text = some (token, rest) → rest.length < text.length

/-- All tokens of a text, or nothing when some part of it is no token. -/
def Lexer.tokens (lexer : Lexer) (text : List Char) : Option (List Token) :=
  if text.isEmpty then some []
  else match _h : lexer.step text with
    | none => none
    | some (token, rest) => (lexer.tokens rest).map (token.toList ++ ·)
termination_by text.length
decreasing_by exact lexer.length_rest_lt _h

theorem Lexer.tokens_nil (lexer : Lexer) : lexer.tokens [] = some [] := by
  rw [tokens, List.isEmpty_nil, if_pos rfl]

/-- A text whose first step is known goes on behind it. -/
theorem Lexer.tokens_of_step {lexer : Lexer} {text rest : List Char} {token : Option Token}
    (h : lexer.step text = some (token, rest)) :
    lexer.tokens text = (lexer.tokens rest).map (token.toList ++ ·) := by
  have hne : text.isEmpty = false := by
    cases text with
    | nil => exact absurd (lexer.length_rest_lt h) (Nat.not_lt_zero _)
    | cons => rfl
  rw [tokens, hne, if_neg Bool.false_ne_true]
  split
  · rename_i hnone; rw [h] at hnone; cases hnone
  · rename_i hsome; rw [h] at hsome; cases hsome; rfl

/-- A text whose first step fails has no tokens. -/
theorem Lexer.tokens_eq_none_of_step {lexer : Lexer} {c : Char} {text : List Char}
    (h : lexer.step (c :: text) = none) : lexer.tokens (c :: text) = none := by
  rw [tokens, List.isEmpty_cons, if_neg Bool.false_ne_true]
  split
  · rfl
  · rename_i hsome; rw [h] at hsome; cases hsome

namespace Token

/-- A bracket, a comma or a colon. -/
def ofPunctuation? : Char → Option Token
  | '[' => some openList
  | ']' => some closeList
  | '\x7b' => some openRecord
  | '\x7d' => some closeRecord
  | ',' => some comma
  | ':' => some colon
  | _ => none

/-- A numeral in the form JSON asks for: at least one whole digit, no zero in front of another, and
a digit behind the point if there is a point. -/
def isStrictNumeral (numeral : Numeral) : Bool :=
  !numeral.whole.isEmpty && (numeral.whole.length == 1 || numeral.whole.head? != some '0') &&
    numeral.fraction != some []

/-- The minus in front of a number, and the text behind it. -/
def scanMinus : List Char → Bool × List Char
  | '-' :: rest => (true, rest)
  | rest => (false, rest)

/-- A number at the front of a text. -/
def number? (text : List Char) : Step :=
  let (negative, unsigned) := scanMinus text
  let (numeral, rest) := Numeral.scan unsigned
  if isStrictNumeral numeral then
    some (some (number (.ofDecimal negative numeral.toDecimal)), rest)
  else none

/-- The characters of a word: ASCII letters, digits and the underscore. -/
def isWordChar (c : Char) : Bool := c.isAlphanum || c == '_'

/-- The characters that begin a word. -/
def isWordStart (c : Char) : Bool := isWordChar c && !c.isDigit

/-- A word at the front of a text, if it is one of those that mean something. -/
def word? (meaning : List Char → Option Token) (text : List Char) : Step :=
  (meaning (text.takeWhile isWordChar)).map fun token => (some token, text.dropWhile isWordChar)

/-- A word, a bracket, a comma, a colon or a number at the front of a text. -/
def plain? (meaning : List Char → Option Token) (c : Char) (rest : List Char) : Step :=
  if isWordStart c then word? meaning (c :: rest)
  else match ofPunctuation? c with
    | some token => some (some token, rest)
    | none => number? (c :: rest)

theorem length_scanMinus_le (text : List Char) : (scanMinus text).2.length ≤ text.length := by
  unfold scanMinus
  split
  · exact Nat.le_succ _
  · exact Nat.le_refl _

theorem length_number?_lt {text rest : List Char} {token : Option Token}
    (h : number? text = some (token, rest)) : rest.length < text.length := by
  unfold number? at h
  dsimp only at h
  split at h
  · rename_i hstrict
    cases h
    have hwhole : (Numeral.scan (scanMinus text).2).1.whole ≠ [] := by
      intro hnil
      rw [isStrictNumeral, hnil] at hstrict
      cases hstrict
    exact Nat.lt_of_lt_of_le (Numeral.length_scan_lt hwhole) (length_scanMinus_le text)
  · cases h

theorem length_word?_lt {meaning : List Char → Option Token} {c : Char} {text rest : List Char}
    {token : Option Token} (hc : isWordChar c = true)
    (h : word? meaning (c :: text) = some (token, rest)) : rest.length < (c :: text).length := by
  obtain ⟨_, _, hrest⟩ := Option.map_eq_some_iff.mp h
  cases hrest
  rw [List.dropWhile_cons_of_pos hc]
  exact Nat.lt_succ_of_le (Numeral.length_dropWhile_le _ _)

theorem length_plain?_lt {meaning : List Char → Option Token} {c : Char} {text rest : List Char}
    {token : Option Token} (h : plain? meaning c text = some (token, rest)) :
    rest.length < (c :: text).length := by
  unfold plain? at h
  split at h
  · rename_i hstart
    rw [isWordStart, Bool.and_eq_true] at hstart
    exact length_word?_lt hstart.1 h
  · split at h
    · cases h; exact Nat.lt_succ_self _
    · exact length_number?_lt h

end Token
end Toolpath
