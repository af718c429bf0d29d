import Toolpath.Json.Token
import Toolpath.Text.Units

/-! # The strict spelling

Tokens as JSON spells them: text in double quotes with the eight short escapes and `\u`, the three
words `null`, `true` and `false`, and four characters between tokens.
-/
namespace Toolpath.Strict

/-- The characters that may stand between tokens. -/
def isGap (c : Char) : Bool := c == ' ' || c == '\t' || c == '\n' || c == '\r'

/-- What the character behind a backslash stands for. -/
def unescape? : Char → Option Char
  | '"' => some '"'
  | '\\' => some '\\'
  | '/' => some '/'
  | 'b' => some '\x08'
  | 'f' => some '\x0c'
  | 'n' => some '\n'
  | 'r' => some '\r'
  | 't' => some '\t'
  | _ => none

/-- The code points of a quoted text up to its closing quote, and the text behind it.  An escape
with `\u` gives a 16-bit unit; a control character has to be escaped. -/
def quoted? : List Char → Option (List Nat × List Char)
  | [] => none
  | '"' :: rest => some ([], rest)
  | '\\' :: 'u' :: a :: b :: c :: d :: rest => do
    let unit ← wholeInBase? 16 [a, b, c, d]
    let (units, rest) ← quoted? rest
    some (unit :: units, rest)
  | '\\' :: c :: rest => do
    let escaped ← unescape? c
    let (units, rest) ← quoted? rest
    some (escaped.toNat :: units, rest)
  | c :: rest =>
    if c.toNat < 0x20 then none
    else do
      let (units, rest) ← quoted? rest
      some (c.toNat :: units, rest)

theorem length_quoted?_lt {text rest : List Char} {units : List Nat}
    (h : quoted? text = some (units, rest)) : rest.length < text.length := by
  fun_induction quoted? text generalizing units rest with
  | case1 => cases h
  | case2 => cases h; exact Nat.lt_succ_self _
  | case3 a b c d tail ih =>
    obtain ⟨_, _, h⟩ := Option.bind_eq_some_iff.mp h
    obtain ⟨⟨_, _⟩, hq, h⟩ := Option.bind_eq_some_iff.mp h
    cases h
    have := ih hq
    simp only [List.length_cons]; omega
  | case4 c tail _ ih =>
    obtain ⟨_, _, h⟩ := Option.bind_eq_some_iff.mp h
    obtain ⟨⟨_, _⟩, hq, h⟩ := Option.bind_eq_some_iff.mp h
    cases h
    have := ih hq
    simp only [List.length_cons]; omega
  | case5 => cases h
  | case6 c tail _ _ _ _ ih =>
    obtain ⟨⟨_, _⟩, hq, h⟩ := Option.bind_eq_some_iff.mp h
    cases h
    have := ih hq
    simp only [List.length_cons]; omega

/-- The words that mean something. -/
def meaning (word : List Char) : Option Token :=
  match String.ofList word with
  | "null" => some .null
  | "true" => some (.bool true)
  | "false" => some (.bool false)
  | _ => none

/-- One step of the strict spelling. -/
def step : List Char → Step
  | [] => none
  | c :: rest =>
    if isGap c then some (none, rest)
    else if c = '"' then
      (quoted? rest).map fun (units, rest) => (some (.text (String.ofList (joinUnits units))), rest)
    else Token.plain? meaning c rest

theorem length_step_lt {text rest : List Char} {token : Option Token}
    (h : step text = some (token, rest)) : rest.length < text.length := by
  cases text with
  | nil => cases h
  | cons c tail =>
    rw [step] at h
    split at h
    · cases h; exact Nat.lt_succ_self _
    · split at h
      · obtain ⟨⟨units, _⟩, hq, hrest⟩ := Option.map_eq_some_iff.mp h
        cases hrest
        exact Nat.lt_succ_of_lt (length_quoted?_lt hq)
      · exact Token.length_plain?_lt h

/-- The strict spelling. -/
def lexer : Lexer := ⟨step, length_step_lt⟩

end Toolpath.Strict
