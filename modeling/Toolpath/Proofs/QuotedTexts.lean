import Toolpath.Json.Loose
import Mathlib.Data.List.Forall2

/-! # Quoted texts

How a text may be written in a literal: between quotes of either kind, with the backslash and the
quote it stands in escaped, and much else raw or escaped as the writer likes (`CharText`).  The
loose spelling reads the text back whatever was chosen (`Loose.quoted?_pieces`).  The strict one may
stop at what it does not know, but never reads anything else (`Strict.quoted?_pieces`).
-/
namespace Toolpath

/-- How a character may be written between two quotes. -/
inductive CharText (quote : Char) : Char → List Char → Prop
  /-- Anything but a backslash and the quote itself may stand as it is. -/
  | raw {c : Char} (hbackslash : c ≠ '\\') (hquote : c ≠ quote) : CharText quote c [c]
  /-- A backslash and a quote of either kind may stand behind a backslash. -/
  | escaped {c : Char} (h : c = '\\' ∨ c = '"' ∨ c = '\'') : CharText quote c ['\\', c]
  | newline : CharText quote '\n' ['\\', 'n']
  | tab : CharText quote '\t' ['\\', 't']
  | carriageReturn : CharText quote '\r' ['\\', 'r']

/-- A text between two quotes of the same kind. -/
inductive QuotedText (text : String) : List Char → Prop
  | quoted {quote : Char} {pieces : List (List Char)} (hquote : quote = '"' ∨ quote = '\'')
    (h : List.Forall₂ (CharText quote) text.toList pieces) :
    QuotedText text (quote :: (pieces.flatten ++ [quote]))

/-! ## The loose spelling -/

namespace Loose
variable {quote : Char}

theorem quoted?_escape (c : Char) (rest : List Char) :
    quoted? quote ('\\' :: c :: rest) =
      (quoted? quote rest).map fun (text, rest) => (unescape c ++ text, rest) := by
  rw [quoted?]

theorem quoted?_of_ne {c : Char} (h : c ≠ '\\') (rest : List Char) :
    quoted? quote (c :: rest) =
      if c = quote then some ([], rest)
      else (quoted? quote rest).map fun (text, rest) => (c :: text, rest) := by
  rw [quoted?]
  intro d others hc _
  exact h hc

/-- A quote ends the text that it began. -/
theorem quoted?_quote (hquote : quote = '"' ∨ quote = '\'') (rest : List Char) :
    quoted? quote (quote :: rest) = some ([], rest) := by
  have hne : quote ≠ '\\' := by rcases hquote with rfl | rfl <;> decide
  rw [quoted?_of_ne hne, if_pos rfl]

/-- One character as it was written is read as itself. -/
theorem quoted?_piece {c : Char} {piece rest : List Char} (h : CharText quote c piece) :
    quoted? quote (piece ++ rest) =
      (quoted? quote rest).map fun (text, rest) => (c :: text, rest) := by
  cases h with
  | raw hbackslash hquote =>
    rw [List.cons_append, List.nil_append, quoted?_of_ne hbackslash, if_neg hquote]
  | escaped h =>
    rw [List.cons_append, List.cons_append, List.nil_append, quoted?_escape]
    rcases h with rfl | rfl | rfl <;> rfl
  | newline => exact quoted?_escape 'n' rest
  | tab => exact quoted?_escape 't' rest
  | carriageReturn => exact quoted?_escape 'r' rest

/-- **The loose spelling reads a quoted text back.** -/
theorem quoted?_pieces (hquote : quote = '"' ∨ quote = '\'') {text : List Char}
    {pieces : List (List Char)} (h : List.Forall₂ (CharText quote) text pieces)
    (rest : List Char) :
    quoted? quote (pieces.flatten ++ quote :: rest) = some (text, rest) := by
  induction h with
  | nil => exact quoted?_quote hquote rest
  | cons hpiece _ ih =>
    rw [List.flatten_cons, List.append_assoc, quoted?_piece hpiece, ih]
    rfl

end Loose

/-! ## The strict spelling -/

namespace Strict

/-- A reading of a quoted text that stops or gives the text that was written. -/
def StopsOrGives (found : Option (List Nat × List Char)) (text rest : List Char) : Prop :=
  found = none ∨ found = some (text.map Char.toNat, rest)

theorem quoted?_escape {c : Char} (h : c ≠ 'u') (rest : List Char) :
    quoted? ('\\' :: c :: rest) = (do
      let escaped ← unescape? c
      let (units, rest) ← quoted? rest
      some (escaped.toNat :: units, rest)) := by
  rw [quoted?]
  intro a b d e others hu _
  exact h hu

theorem quoted?_of_ne {c : Char} (hquote : c ≠ '"') (hbackslash : c ≠ '\\') (rest : List Char) :
    quoted? (c :: rest) =
      (if c.toNat < 0x20 then none
      else do
        let (units, rest) ← quoted? rest
        some (c.toNat :: units, rest)) := by
  rw [quoted?]
  · exact fun heq => hquote heq
  · intro a b d e others hc _
    exact hbackslash hc
  · intro d others hc _
    exact hbackslash hc

/-- An escape that stands for a character goes before what is read behind it. -/
theorem stopsOrGives_escape {c d : Char} {text rest behind : List Char} (hu : c ≠ 'u')
    (hc : unescape? c = some d ∨ unescape? c = none)
    (h : StopsOrGives (quoted? behind) text rest) :
    StopsOrGives (quoted? ('\\' :: c :: behind)) (d :: text) rest := by
  rw [quoted?_escape hu]
  rcases hc with hc | hc
  · rcases h with h | h
    · exact .inl (by rw [hc, h]; rfl)
    · exact .inr (by rw [hc, h]; rfl)
  · exact .inl (by rw [hc]; rfl)

/-- One character as it was written is read as itself, if it is read at all. -/
theorem stopsOrGives_piece {c : Char} {piece text rest behind : List Char}
    (hpiece : CharText '"' c piece) (h : StopsOrGives (quoted? behind) text rest) :
    StopsOrGives (quoted? (piece ++ behind)) (c :: text) rest := by
  cases hpiece with
  | raw hbackslash hquote =>
    rw [List.cons_append, List.nil_append, quoted?_of_ne hquote hbackslash]
    split
    · exact .inl rfl
    · rcases h with h | h
      · exact .inl (by rw [h]; rfl)
      · exact .inr (by rw [h]; rfl)
  | escaped hc =>
    rcases hc with rfl | rfl | rfl
    · exact stopsOrGives_escape (by decide) (.inl rfl) h
    · exact stopsOrGives_escape (by decide) (.inl rfl) h
    · exact stopsOrGives_escape (by decide) (.inr rfl) h
  | newline => exact stopsOrGives_escape (by decide) (.inl rfl) h
  | tab => exact stopsOrGives_escape (by decide) (.inl rfl) h
  | carriageReturn => exact stopsOrGives_escape (by decide) (.inl rfl) h

/-- **The strict spelling stops at a quoted text or reads it back.** -/
theorem quoted?_pieces {text : List Char} {pieces : List (List Char)}
    (h : List.Forall₂ (CharText '"') text pieces) (rest : List Char) :
    StopsOrGives (quoted? (pieces.flatten ++ '"' :: rest)) text rest := by
  induction h with
  | nil => exact .inr rfl
  | cons hpiece _ ih =>
    rw [List.flatten_cons, List.append_assoc]
    exact stopsOrGives_piece hpiece ih

end Strict
end Toolpath
