import Toolpath.Proofs.Escapes
import Toolpath.Proofs.LiteralTokens
import Toolpath.Proofs.NumberTokens

/-! # Texts in the strict spelling

A text that the strict spelling reads falls into pieces, each of them a gap or a token
(`StrictText`).  A piece carries what may stand behind it, the token that the strict spelling finds
in it and the one that the loose spelling finds; the two differ in nothing but the escapes of quoted
texts.  Every text with tokens falls into pieces (`StrictText.of_tokens`), and pieces in front of
more text are read by either spelling (`StrictText.strict_append`, `StrictText.loose_append`).
-/
namespace Toolpath

/-! ## Pieces -/

/-- A gap or a token at the front of a text, with what may stand behind it: what the strict spelling
finds in it, what the loose one does, and its characters. -/
inductive StrictPiece (rest : List Char) : Option Token → Option Token → List Char → Prop
  | gap {c : Char} (hc : Strict.isGap c = true) : StrictPiece rest none none [c]
  | text {chars loose : List Char} {units : List Nat} (h : StrictBody chars units loose) :
    StrictPiece rest (some (.text (String.ofList (joinUnits units))))
      (some (.text (String.ofList loose))) ('"' :: (chars ++ ['"']))
  | word {c : Char} {word : List Char} {token : Token} (hc : Token.isWordStart c = true)
    (hword : ∀ d ∈ c :: word, Token.isWordChar d = true)
    (hmeaning : Strict.meaning (c :: word) = some token)
    (hrest : ∀ d ∈ rest.head?, Token.isWordChar d = false) :
    StrictPiece rest (some token) (some token) (c :: word)
  | punctuation {c : Char} {token : Token} (hc : Token.ofPunctuation? c = some token) :
    StrictPiece rest (some token) (some token) [c]
  | number {text : NumberText} (hlead : text.NoLeadingZero) (hrest : EndsNumeral rest) :
    StrictPiece rest (some (.number text.value)) (some (.number text.value)) text.chars

theorem meaning_cases {word : List Char} {token : Token} (h : Strict.meaning word = some token) :
    word = "null".toList ∨ word = "true".toList ∨ word = "false".toList := by
  have hword {name : String} (heq : String.ofList word = name) : word = name.toList := by
    rw [← heq, String.toList_ofList]
  unfold Strict.meaning at h
  split at h
  · rename_i heq
    exact .inl (hword heq)
  · rename_i heq
    exact .inr (.inl (hword heq))
  · rename_i heq
    exact .inr (.inr (hword heq))
  · cases h

/-- What the strict spelling takes a word for, the loose one does. -/
theorem loose_meaning {word : List Char} {token : Token} (h : Strict.meaning word = some token) :
    Loose.meaning word = some token := by
  rcases meaning_cases h with rfl | rfl | rfl <;> exact h

theorem isPlain_of_isWordStart {c : Char} (h : Token.isWordStart c = true) : IsPlain c := by
  refine ⟨Bool.eq_false_iff.mpr fun hgap => ?_, ?_, ?_, ?_⟩
  · rcases isGap_cases hgap with rfl | rfl | rfl | rfl <;> cases h
  all_goals
    rintro rfl
    cases h

theorem ofPunctuation?_cases {c : Char} {token : Token} (h : Token.ofPunctuation? c = some token) :
    c = ',' ∧ token = .comma ∨ Token.isWordStart c = false ∧ IsPlain c := by
  unfold Token.ofPunctuation? at h
  split at h
  all_goals cases h
  all_goals first | exact .inl ⟨rfl, rfl⟩ | exact .inr (by decide)

theorem plain?_word {meaning : List Char → Option Token} {c : Char} {word rest : List Char}
    {token : Token} (hc : Token.isWordStart c = true)
    (hword : ∀ d ∈ c :: word, Token.isWordChar d = true)
    (hmeaning : meaning (c :: word) = some token)
    (hrest : ∀ d ∈ rest.head?, Token.isWordChar d = false) :
    Token.plain? meaning c (word ++ rest) = some (some token, rest) := by
  rw [Token.plain?, if_pos hc, ← List.cons_append, Token.word?, takeWhile_append_eq hword hrest,
    dropWhile_append_eq hword hrest, hmeaning, Option.map_some]

theorem plain?_punctuation {c : Char} {token : Token} (hc : Token.ofPunctuation? c = some token)
    (hstart : Token.isWordStart c = false) (meaning : List Char → Option Token)
    (rest : List Char) : Token.plain? meaning c rest = some (some token, rest) := by
  rw [Token.plain?, hstart, if_neg Bool.false_ne_true, hc]

theorem exists_plain?_number {text : NumberText} {rest : List Char} (hlead : text.NoLeadingZero)
    (hrest : EndsNumeral rest) : ∃ first others, text.chars = first :: others ∧ IsPlain first ∧
      ∀ meaning, Token.plain? meaning first (others ++ rest) =
        some (some (.number text.value), rest) := by
  obtain ⟨first, others, hchars, hfirst⟩ := exists_chars_eq_cons text
  refine ⟨first, others, hchars, isPlain_of_isDigit_or hfirst, fun meaning => ?_⟩
  rw [plain?_number hfirst, ← List.cons_append, ← hchars]
  exact text.number?_append hlead hrest

namespace StrictPiece
variable {rest chars : List Char} {token loose : Option Token}

/-- **The strict spelling finds a piece** in one step. -/
theorem strict_step (h : StrictPiece rest token loose chars) :
    Strict.step (chars ++ rest) = some (token, rest) := by
  cases h with
  | gap hc => exact strict_step_gap hc rest
  | text h =>
    rw [List.cons_append, List.append_assoc, List.singleton_append, Strict.step,
      if_neg (by decide), if_pos rfl, h.strict_quoted? rest]
    rfl
  | word hc hword hmeaning hrest =>
    have hplain := isPlain_of_isWordStart hc
    rw [List.cons_append, strict_step_plain hplain.1 hplain.2.1]
    exact plain?_word hc hword hmeaning hrest
  | punctuation hc =>
    rcases ofPunctuation?_cases hc with ⟨rfl, rfl⟩ | ⟨hstart, hplain⟩
    · exact strict_step_comma rest
    · rw [List.singleton_append, strict_step_plain hplain.1 hplain.2.1]
      exact plain?_punctuation hc hstart _ rest
  | number hlead hrest =>
    obtain ⟨first, others, hchars, hplain, hread⟩ := exists_plain?_number hlead hrest
    rw [hchars, List.cons_append, strict_step_plain hplain.1 hplain.2.1]
    exact hread _

/-- **The loose spelling finds a piece** in one step, unless it is a comma in front of a closing
bracket. -/
theorem loose_step (h : StrictPiece rest token loose chars)
    (hcomma : token = some .comma → Loose.closes (rest.dropWhile isBlank) = false) :
    Loose.step (chars ++ rest) = some (loose, rest) := by
  cases h with
  | gap hc => exact loose_step_gap hc rest
  | text h =>
    rw [List.cons_append, List.append_assoc, List.singleton_append, Loose.step,
      if_neg (by decide), if_pos (.inl rfl), h.loose_quoted? rest]
    rfl
  | word hc hword hmeaning hrest =>
    rw [List.cons_append, loose_step_plain (isPlain_of_isWordStart hc)]
    exact plain?_word hc hword (loose_meaning hmeaning) hrest
  | punctuation hc =>
    rcases ofPunctuation?_cases hc with ⟨rfl, rfl⟩ | ⟨hstart, hplain⟩
    · exact loose_step_comma (hcomma rfl)
    · rw [List.singleton_append, loose_step_plain hplain]
      exact plain?_punctuation hc hstart _ rest
  | number hlead hrest =>
    obtain ⟨first, others, hchars, hplain, hread⟩ := exists_plain?_number hlead hrest
    rw [hchars, List.cons_append, loose_step_plain hplain]
    exact hread _

/-- What stands behind a piece may be replaced by what begins alike, or ends any value. -/
theorem before {other : List Char} (h : StrictPiece rest token loose chars)
    (hother : other.head? = rest.head? ∨ EndsValue other) :
    StrictPiece other token loose chars := by
  cases h with
  | gap hc => exact .gap hc
  | text h => exact .text h
  | word hc hword hmeaning hrest =>
    refine .word hc hword hmeaning ?_
    rcases hother with heq | hends
    · rwa [heq]
    · exact hends.isWordChar_eq_false
  | punctuation hc => exact .punctuation hc
  | number hlead hrest =>
    refine .number hlead ?_
    rcases hother with heq | hends
    · unfold EndsNumeral
      rwa [heq]
    · exact hends.endsNumeral

theorem append {back : List Char} (h : StrictPiece rest token loose chars)
    (hback : EndsValue back) : StrictPiece (rest ++ back) token loose chars := by
  refine h.before ?_
  cases rest with
  | nil => exact .inr hback
  | cons c rest => exact .inl rfl

/-- **Doubling goes through pieces**, and the strict spelling finds in a doubled piece what the
loose one finds in the piece. -/
theorem doubles (h : StrictPiece rest token loose chars) :
    doubled (chars ++ rest) = doubled chars ++ doubled rest ∧
      StrictPiece (doubled rest) loose loose (doubled chars) := by
  have hplain (hkept : ∀ c ∈ chars, c ≠ '\\')
      (hpiece : StrictPiece rest loose loose chars) :
      doubled (chars ++ rest) = doubled chars ++ doubled rest ∧
        StrictPiece (doubled rest) loose loose (doubled chars) := by
    have hself : doubled chars = chars := by
      rw [← List.append_nil chars, doubled_append hkept, List.append_nil]
      exact List.append_nil chars
    rw [hself]
    exact ⟨doubled_append hkept rest, hpiece.before (.inl (head?_doubled rest))⟩
  cases h with
  | gap hc =>
    refine hplain ?_ (.gap hc)
    rintro d (_ | ⟨_, _, _⟩) rfl
    cases hc
  | @text body text units h =>
    have hbody := h.doubled_append_quote
    have htext : doubled ('"' :: (body ++ ['"'])) = '"' :: (doubled body ++ ['"']) := by
      rw [doubled_of_ne (by decide), hbody]
      rfl
    refine ⟨?_, ?_⟩
    · rw [htext, List.cons_append, doubled_of_ne (by decide), List.append_assoc,
        List.singleton_append, hbody, List.cons_append, List.append_assoc, List.singleton_append]
    · rw [htext]
      have hpiece : StrictPiece (doubled rest) _ _ ('"' :: (doubled body ++ ['"'])) :=
        .text h.doubles
      rwa [joinUnits_map_toNat] at hpiece
  | word hc hword hmeaning hrest =>
    refine hplain ?_ (.word hc hword hmeaning hrest)
    rintro d hd rfl
    exact absurd (hword _ hd) (by decide)
  | punctuation hc =>
    refine hplain ?_ (.punctuation hc)
    rintro d (_ | ⟨_, _, _⟩) rfl
    cases hc
  | number hlead hrest =>
    refine hplain ?_ (.number hlead hrest)
    rintro d hd rfl
    rcases NumberText.isNumeralChar hd with hdigit | hsign | hsign | hsign | hsign | hsign
    all_goals contradiction

end StrictPiece

/-- Behind a number token the numeral cannot go on where tokens follow. -/
theorem endsNumeral_of_tokens {rest : List Char} (hdigits : EndsDigits rest)
    (h : (Strict.lexer.tokens rest).isSome = true) : EndsNumeral rest := by
  have hstep {c : Char} {others : List Char} (heq : rest = c :: others) :
      Strict.lexer.step (c :: others) ≠ none := by
    intro hnone
    rw [heq, Lexer.tokens_eq_none_of_step hnone] at h
    cases h
  -- no word begins with the letter of a power
  have hletter {c : Char} (hc : c = 'e' ∨ c = 'E') (others : List Char) :
      Strict.step (c :: others) = none := by
    have hword : Strict.meaning (c :: others.takeWhile Token.isWordChar) = none := by
      rw [Option.eq_none_iff_forall_ne_some]
      intro token hmeaning
      rcases meaning_cases hmeaning with heq | heq | heq <;> rcases hc with rfl | rfl <;> cases heq
    have hstart : Token.isWordStart c = true := by rcases hc with rfl | rfl <;> rfl
    have hplain := isPlain_of_isWordStart hstart
    rw [strict_step_plain hplain.1 hplain.2.1, Token.plain?, if_pos hstart, Token.word?,
      List.takeWhile_cons_of_pos (Bool.and_eq_true_iff.mp hstart).1, hword, Option.map_none]
  intro c hc
  cases rest with
  | nil => cases hc
  | cons first others =>
    cases hc
    refine ⟨hdigits c rfl, ?_, ?_, ?_⟩
    · rintro rfl
      have hpoint : Token.plain? Strict.meaning '.' others = none :=
        number?_eq_none (c := '.') rfl (by decide) others
      exact hstep rfl ((strict_step_plain rfl (by decide) others).trans hpoint)
    · rintro rfl
      exact hstep rfl (hletter (.inl rfl) others)
    · rintro rfl
      exact hstep rfl (hletter (.inr rfl) others)

/-- **A step of the strict spelling takes a piece**, if tokens follow. -/
theorem exists_strictPiece_of_step {text rest : List Char} {token : Option Token}
    (hstep : Strict.step text = some (token, rest))
    (hrest : (Strict.lexer.tokens rest).isSome = true) :
    ∃ loose chars, text = chars ++ rest ∧ StrictPiece rest token loose chars := by
  cases text with
  | nil => cases hstep
  | cons c tail =>
    rw [Strict.step] at hstep
    split at hstep
    · rename_i hgap
      cases hstep
      exact ⟨none, [c], rfl, .gap hgap⟩
    split at hstep
    · rename_i hquote
      subst hquote
      obtain ⟨⟨units, behind⟩, hquoted, heq⟩ := Option.map_eq_some_iff.mp hstep
      cases heq
      obtain ⟨chars, loose, rfl, hbody⟩ := StrictBody.of_quoted? hquoted
      exact ⟨_, '"' :: (chars ++ ['"']), by simp, .text hbody⟩
    unfold Token.plain? at hstep
    split at hstep
    · rename_i hstart
      obtain ⟨token, hmeaning, heq⟩ := Option.map_eq_some_iff.mp hstep
      cases heq
      have hc : Token.isWordChar c = true := (Bool.and_eq_true_iff.mp hstart).1
      have hsplit := List.takeWhile_append_dropWhile (p := Token.isWordChar) (l := c :: tail)
      have hword : ∀ d ∈ (c :: tail).takeWhile Token.isWordChar, Token.isWordChar d = true :=
        List.all_eq_true.mp List.all_takeWhile
      have hend : ∀ d ∈ ((c :: tail).dropWhile Token.isWordChar).head?,
          Token.isWordChar d = false := by
        intro d hd
        have hnot := List.head?_dropWhile_not Token.isWordChar (c :: tail)
        rw [hd] at hnot
        exact hnot
      rw [List.takeWhile_cons_of_pos hc] at hmeaning hword hsplit
      exact ⟨_, _, hsplit.symm, .word hstart hword hmeaning hend⟩
    split at hstep
    · rename_i token hpunctuation
      cases hstep
      exact ⟨_, [c], rfl, .punctuation hpunctuation⟩
    · obtain ⟨hends, found, hlead, htext, rfl⟩ := Token.exists_of_number? hstep
      exact ⟨_, _, htext, .number hlead (endsNumeral_of_tokens hends hrest)⟩

/-! ## Whole texts -/

/-- A text that falls into pieces, with the tokens that the strict and the loose spelling find. -/
inductive StrictText : List Char → List Token → List Token → Prop
  | nil : StrictText [] [] []
  | cons {chars rest : List Char} {token loose : Option Token} {tokens looses : List Token}
    (hpiece : StrictPiece rest token loose chars) (hmore : StrictText rest tokens looses) :
    StrictText (chars ++ rest) (token.toList ++ tokens) (loose.toList ++ looses)

/-- **A text with tokens falls into pieces.** -/
theorem StrictText.of_tokens {text : List Char} {tokens : List Token}
    (h : Strict.lexer.tokens text = some tokens) : ∃ looses, StrictText text tokens looses := by
  match text with
  | [] =>
    cases Strict.lexer.tokens_nil.symm.trans h
    exact ⟨[], .nil⟩
  | c :: tail =>
    cases hstep : Strict.lexer.step (c :: tail) with
    | none =>
      rw [Lexer.tokens_eq_none_of_step hstep] at h
      cases h
    | some found =>
      obtain ⟨token, rest⟩ := found
      have hread : Strict.step (c :: tail) = some (token, rest) := hstep
      rw [Lexer.tokens_of_step hstep] at h
      obtain ⟨more, hmore, rfl⟩ := Option.map_eq_some_iff.mp h
      obtain ⟨loose, chars, hchars, hpiece⟩ :=
        exists_strictPiece_of_step hread (by rw [hmore]; rfl)
      obtain ⟨looses, htext⟩ := of_tokens hmore
      rw [hchars]
      exact ⟨_, .cons hpiece htext⟩
termination_by text.length
decreasing_by exact Strict.length_step_lt hread

/-- A closing bracket is a token wherever it is met. -/
theorem IsCloser.strict_tokens {bracket : Char} {closer : Token} (h : IsCloser bracket closer)
    (rest : List Char) : Strict.lexer.tokens (bracket :: rest) =
      (Strict.lexer.tokens rest).map (closer :: ·) := by
  have hpiece : StrictPiece rest (some closer) (some closer) [bracket] := by
    cases h with
    | list => exact .punctuation rfl
    | record => exact .punctuation rfl
  have hstep : Strict.lexer.step (bracket :: rest) = some (some closer, rest) := hpiece.strict_step
  exact Lexer.tokens_of_step hstep

theorem exists_isCloser_of_closes {c : Char} {rest : List Char}
    (h : Loose.closes (c :: rest) = true) : ∃ closer, IsCloser c closer := by
  unfold Loose.closes at h
  split at h
  · rename_i heq
    cases heq
    exact ⟨_, .list⟩
  · rename_i heq
    cases heq
    exact ⟨_, .record⟩
  · cases h

/-- Where the loose spelling sees a closing bracket behind blanks, the strict one has it for the
next token. -/
theorem exists_closer_of_closes {text : List Char} {tokens : List Token}
    (hread : Strict.lexer.tokens text = some tokens)
    (hcloses : Loose.closes (text.dropWhile isBlank) = true) :
    ∃ bracket closer more, IsCloser bracket closer ∧ tokens = closer :: more := by
  induction text with
  | nil => cases hcloses
  | cons c rest ih =>
    by_cases hgap : Strict.isGap c = true
    · have hstep : Strict.lexer.step (c :: rest) = some (none, rest) := strict_step_gap hgap rest
      rw [List.dropWhile_cons_of_pos (isBlank_of_isGap hgap)] at hcloses
      rw [Lexer.tokens_of_step hstep, Option.toList_none] at hread
      exact ih (Option.map_id'.symm.trans hread) hcloses
    by_cases hblank : isBlank c = true
    · have hstep : Strict.lexer.step (c :: rest) = none :=
        strict_step_eq_none_of_isBlank hblank (Bool.eq_false_iff.mpr hgap) rest
      rw [Lexer.tokens_eq_none_of_step hstep] at hread
      cases hread
    · rw [List.dropWhile_cons_of_neg hblank] at hcloses
      obtain ⟨closer, hcloser⟩ := exists_isCloser_of_closes hcloses
      rw [hcloser.strict_tokens] at hread
      obtain ⟨more, _, heq⟩ := Option.map_eq_some_iff.mp hread
      exact ⟨c, closer, more, hcloser, heq.symm⟩

namespace StrictText
variable {text : List Char} {tokens looses : List Token}

/-- **Pieces in front of a text** that may end a value give their tokens to the strict spelling. -/
theorem strict_append (h : StrictText text tokens looses) {back : List Char}
    (hback : EndsValue back) :
    Strict.lexer.tokens (text ++ back) = (Strict.lexer.tokens back).map (tokens ++ ·) := by
  induction h with
  | nil => exact Option.map_id'.symm
  | @cons chars rest token loose tokens looses hpiece _ ih =>
    have hstep : Strict.lexer.step (chars ++ (rest ++ back)) = some (token, rest ++ back) :=
      (hpiece.append hback).strict_step
    rw [List.append_assoc, Lexer.tokens_of_step hstep, ih, Option.map_map]
    simp only [Function.comp_def, List.append_assoc]

/-- **Pieces in front of a text** that may end a value give their tokens to the loose spelling, if
no comma among them stands in front of a closing bracket. -/
theorem loose_append (h : StrictText text tokens looses) {back : List Char} {behind : List Token}
    (hback : EndsValue back) (hread : Strict.lexer.tokens back = some behind)
    (hcomma : ¬HasTrailingComma (tokens ++ behind.take 1)) :
    Loose.lexer.tokens (text ++ back) = (Loose.lexer.tokens back).map (looses ++ ·) := by
  induction h with
  | nil => exact Option.map_id'.symm
  | @cons chars rest token loose tokens looses hpiece hmore ih =>
    have hopen : token = some .comma → Loose.closes ((rest ++ back).dropWhile isBlank) = false := by
      intro htoken
      rw [← Bool.not_eq_true]
      intro hcloses
      have hrest := hmore.strict_append hback
      rw [hread, Option.map_some] at hrest
      obtain ⟨bracket, closer, more, hcloser, heq⟩ := exists_closer_of_closes hrest hcloses
      -- the bracket is the next token, here or behind
      have hnext : ∃ others, tokens ++ behind.take 1 = closer :: others := by
        cases tokens with
        | nil => exact ⟨[], by rw [List.nil_append] at heq; rw [heq]; rfl⟩
        | cons first tokens => exact ⟨_, congrArg (· :: _) (List.cons.inj heq).1⟩
      obtain ⟨others, hnext⟩ := hnext
      rw [htoken, List.append_assoc, hnext] at hcomma
      exact hcomma (.here hcloser others)
    have hstep : Loose.lexer.step (chars ++ (rest ++ back)) = some (loose, rest ++ back) :=
      (hpiece.append hback).loose_step hopen
    have hlater : ¬HasTrailingComma (tokens ++ behind.take 1) := by
      intro h
      refine hcomma ?_
      rw [List.append_assoc]
      exact h.append_left _
    rw [List.append_assoc, Lexer.tokens_of_step hstep, ih hlater, Option.map_map]
    simp only [Function.comp_def, List.append_assoc]

/-- **The doubled text** is for the strict spelling what the text is for the loose one. -/
theorem doubles (h : StrictText text tokens looses) : StrictText (doubled text) looses looses := by
  induction h with
  | nil => exact .nil
  | cons hpiece _ ih =>
    obtain ⟨hchars, hdoubled⟩ := hpiece.doubles
    rw [hchars]
    exact .cons hdoubled ih

end StrictText

end Toolpath
