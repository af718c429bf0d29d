import Toolpath.Json.Strict
import Toolpath.Text.Blank

/-! # The loose spelling

Tokens as hand-written literals spell them.  It differs from the strict spelling in three ways.
Text stands in single or double quotes, anything but the closing quote may stand raw in it, and a
backslash pairs with the character behind it: six pairs stand for one character, every other pair
for itself.  `None`, `True` and `False` stand beside the three lower-case words.  A comma is no
token when only blanks separate it from a closing bracket, and those blanks go with it.
-/
namespace Toolpath.Loose

/-- What a backslash and the character behind it stand for. -/
def unescape : Char → List Char
  | 'n' => ['\n']
  | 't' => ['\t']
  | 'r' => ['\r']
  | '\\' => ['\\']
  | '\'' => ['\'']
  | '"' => ['"']
  | c => ['\\', c]

/-- A text up to its closing quote, and what is behind it. -/
def quoted? (quote : Char) : List Char → Option (List Char × List Char)
  | [] => none
  | '\\' :: c :: rest => (quoted? quote rest).map fun (text, rest) => (unescape c ++ text, rest)
  | c :: rest =>
    if c = quote then some ([], rest)
    else (quoted? quote rest).map fun (text, rest) => (c :: text, rest)

theorem length_quoted?_lt {quote : Char} {text rest inner : List Char}
    (h : quoted? quote text = some (inner, rest)) : rest.length < text.length := by
  fun_induction quoted? quote text generalizing inner rest with
  | case1 => cases h
  | case2 c tail ih =>
    obtain ⟨⟨_, _⟩, hq, hrest⟩ := Option.map_eq_some_iff.mp h
    cases hrest
    exact Nat.lt_succ_of_lt (Nat.lt_succ_of_lt (ih hq))
  | case3 => cases h; exact Nat.lt_succ_self _
  | case4 c tail _ _ ih =>
    obtain ⟨⟨_, _⟩, hq, hrest⟩ := Option.map_eq_some_iff.mp h
    cases hrest
    exact Nat.lt_succ_of_lt (ih hq)

/-- The words that mean something. -/
def meaning (word : List Char) : Option Token :=
  match String.ofList word with
  | "None" => some .null
  | "True" => some (.bool true)
  | "False" => some (.bool false)
  | _ => Strict.meaning word

/-- Whether a text begins with a closing bracket. -/
def closes : List Char → Bool
  | ']' :: _ | '\x7d' :: _ => true
  | _ => false

/-- One step of the loose spelling. -/
def step : List Char → Step
  | [] => none
  | c :: rest =>
    if Strict.isGap c then some (none, rest)
    else if c = '"' ∨ c = '\'' then
      (quoted? c rest).map fun (text, rest) => (some (.text (String.ofList text)), rest)
    else if c = ',' ∧ closes (rest.dropWhile isBlank) then some (none, rest.dropWhile isBlank)
    else Token.plain? meaning c rest

theorem length_step_lt {text rest : List Char} {token : Option Token}
    (h : step text = some (token, rest)) : rest.length < text.length := by
  cases text with
  | nil => cases h
  | cons c tail =>
    rw [step] at h
    split at h
    · cases h; exact Nat.lt_succ_self _
    · split at h
      · obtain ⟨⟨_, _⟩, hq, hrest⟩ := Option.map_eq_some_iff.mp h
        cases hrest
        exact Nat.lt_succ_of_lt (length_quoted?_lt hq)
      · split at h
        · cases h; exact Nat.lt_succ_of_le (Numeral.length_dropWhile_le _ _)
        · exact Token.length_plain?_lt h

/-- The loose spelling. -/
def lexer : Lexer := ⟨step, length_step_lt⟩

end Toolpath.Loose
