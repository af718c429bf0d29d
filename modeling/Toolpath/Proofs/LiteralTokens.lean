import Toolpath.Proofs.NumberTexts
import Toolpath.Proofs.QuotedTexts

/-! # Tokens of literals

What the two spellings make of the parts that a literal is written in.  `ReadBefore` says it of a
part in front of some text: the loose spelling finds the tokens that are meant, and the strict one
stops, or finds them too, or finds a comma in front of a closing bracket.  Parts that are read in
this way can be put together (`ReadBefore.append`).
-/
namespace Toolpath

/-- A bracket that ends a list or a record, and its token. -/
inductive IsCloser : Char → Token → Prop
  | list : IsCloser ']' .closeList
  | record : IsCloser '\x7d' .closeRecord

/-- Somewhere a comma stands in front of a closing bracket. -/
inductive HasTrailingComma : List Token → Prop
  | here {bracket : Char} {closer : Token} (h : IsCloser bracket closer) (rest : List Token) :
      HasTrailingComma (.comma :: closer :: rest)
  | later (first : Token) {rest : List Token} (h : HasTrailingComma rest) :
      HasTrailingComma (first :: rest)

theorem HasTrailingComma.append_left {tokens : List Token} (h : HasTrailingComma tokens)
    (front : List Token) : HasTrailingComma (front ++ tokens) := by
  induction front with
  | nil => exact h
  | cons first front ih => exact .later first ih

theorem HasTrailingComma.append_right {tokens : List Token} (h : HasTrailingComma tokens)
    (behind : List Token) : HasTrailingComma (tokens ++ behind) := by
  induction h with
  | here h rest => exact .here h (rest ++ behind)
  | later first _ ih => exact .later first ih

/-- What the spellings read where some characters stand in front of a text. -/
structure ReadBefore (rest chars : List Char) (tokens : List Token) : Prop where
  loose : Loose.lexer.tokens (chars ++ rest) = (Loose.lexer.tokens rest).map (tokens ++ ·)
  strict : Strict.lexer.tokens (chars ++ rest) = none ∨
    ∃ found, Strict.lexer.tokens (chars ++ rest) = (Strict.lexer.tokens rest).map (found ++ ·) ∧
      (found = tokens ∨ HasTrailingComma found)

namespace ReadBefore
variable {rest front chars : List Char} {tokens more : List Token}

theorem nil (rest : List Char) : ReadBefore rest [] [] := by
  have hmap (tokens : Option (List Token)) : tokens = tokens.map ([] ++ ·) := by
    cases tokens <;> rfl
  refine ⟨?_, .inr ⟨[], ?_, .inl rfl⟩⟩
  · rw [List.nil_append]
    exact hmap _
  · rw [List.nil_append]
    exact hmap _

/-- **Parts one after another** give their tokens one after another. -/
theorem append (hfront : ReadBefore (chars ++ rest) front tokens)
    (hchars : ReadBefore rest chars more) : ReadBefore rest (front ++ chars) (tokens ++ more) := by
  constructor
  · rw [List.append_assoc, hfront.loose, hchars.loose, Option.map_map]
    simp only [Function.comp_def, List.append_assoc]
  · rw [List.append_assoc]
    rcases hfront.strict with hnone | ⟨found, hfound, hmeant⟩
    · exact .inl hnone
    rcases hchars.strict with hnone | ⟨behind, hbehind, hbehindMeant⟩
    · left
      rw [hfound, hnone, Option.map_none]
    -- a comma in front of a bracket in either part stays one in the whole
    right
    refine ⟨found ++ behind, ?_, ?_⟩
    · rw [hfound, hbehind, Option.map_map]
      simp only [Function.comp_def, List.append_assoc]
    · rcases hmeant with rfl | hcomma
      · rcases hbehindMeant with rfl | hcomma
        · exact .inl rfl
        · exact .inr (hcomma.append_left found)
      · exact .inr (hcomma.append_right behind)

/-- A part that the loose spelling reads in one step, and the strict one too if at all. -/
theorem of_step {c : Char} (token : Option Token)
    (hloose : Loose.step (c :: (chars ++ rest)) = some (token, rest))
    (hstrict : Strict.step (c :: (chars ++ rest)) = none ∨
      Strict.step (c :: (chars ++ rest)) = some (token, rest)) :
    ReadBefore rest (c :: chars) token.toList := by
  have hread {lexer : Lexer} (h : lexer.step (c :: (chars ++ rest)) = some (token, rest)) :
      lexer.tokens (c :: chars ++ rest) = (lexer.tokens rest).map (token.toList ++ ·) :=
    Lexer.tokens_of_step h
  refine ⟨hread hloose, ?_⟩
  rcases hstrict with hnone | hsome
  · left
    have hstep : Strict.lexer.step (c :: (chars ++ rest)) = none := hnone
    exact Lexer.tokens_eq_none_of_step hstep
  · exact .inr ⟨_, hread hsome, .inl rfl⟩

end ReadBefore

/-! ## Gaps -/

/-- Characters that may stand between any two tokens. -/
def IsGap (gap : List Char) : Prop := ∀ c ∈ gap, Strict.isGap c = true

theorem isGap_cases {c : Char} (h : Strict.isGap c = true) :
    c = ' ' ∨ c = '\t' ∨ c = '\n' ∨ c = '\r' := by
  simpa [Strict.isGap, or_assoc] using h

theorem isBlank_of_isGap {c : Char} (h : Strict.isGap c = true) : isBlank c = true := by
  rcases isGap_cases h with rfl | rfl | rfl | rfl <;> rfl

theorem loose_step_gap {c : Char} (h : Strict.isGap c = true) (rest : List Char) :
    Loose.step (c :: rest) = some (none, rest) := by
  rw [Loose.step, if_pos h]

theorem strict_step_gap {c : Char} (h : Strict.isGap c = true) (rest : List Char) :
    Strict.step (c :: rest) = some (none, rest) := by
  rw [Strict.step, if_pos h]

theorem readBefore_gap {gap : List Char} (h : IsGap gap) (rest : List Char) :
    ReadBefore rest gap [] := by
  induction gap with
  | nil => exact .nil rest
  | cons c gap ih =>
    have hc := h c List.mem_cons_self
    have hfirst : ReadBefore (gap ++ rest) [c] [] :=
      .of_step none (loose_step_gap hc (gap ++ rest)) (.inr (strict_step_gap hc (gap ++ rest)))
    exact hfirst.append (ih fun d hd => h d (List.mem_cons_of_mem c hd))

/-! ## Words, numbers and punctuation -/

/-- A text that may stand behind a value. -/
def EndsValue (rest : List Char) : Prop :=
  ∀ c ∈ rest.head?, Strict.isGap c = true ∨ c = ',' ∨ c = ']' ∨ c = '\x7d'

theorem EndsValue.isWordChar_eq_false {rest : List Char} (h : EndsValue rest) :
    ∀ c ∈ rest.head?, Token.isWordChar c = false := by
  intro c hc
  rcases h c hc with hgap | rfl | rfl | rfl
  · rcases isGap_cases hgap with rfl | rfl | rfl | rfl <;> rfl
  all_goals rfl

theorem EndsValue.endsNumeral {rest : List Char} (h : EndsValue rest) : EndsNumeral rest := by
  intro c hc
  rcases h c hc with hgap | rfl | rfl | rfl
  · rcases isGap_cases hgap with rfl | rfl | rfl | rfl <;> decide
  all_goals decide

/-- The characters that both spellings take for the beginning of a word, a number or a bracket, or
for a colon. -/
def IsPlain (c : Char) : Prop := Strict.isGap c = false ∧ c ≠ '"' ∧ c ≠ '\'' ∧ c ≠ ','

instance (c : Char) : Decidable (IsPlain c) := inferInstanceAs (Decidable (_ ∧ _))

theorem loose_step_plain {c : Char} (h : IsPlain c) (rest : List Char) :
    Loose.step (c :: rest) = Token.plain? Loose.meaning c rest := by
  obtain ⟨hgap, hdouble, hsingle, hcomma⟩ := h
  rw [Loose.step, if_neg (Bool.eq_false_iff.mp hgap), if_neg (not_or.mpr ⟨hdouble, hsingle⟩),
    if_neg fun hc => hcomma hc.1]

theorem strict_step_plain {c : Char} (hgap : Strict.isGap c = false) (hquote : c ≠ '"')
    (rest : List Char) : Strict.step (c :: rest) = Token.plain? Strict.meaning c rest := by
  rw [Strict.step, if_neg (Bool.eq_false_iff.mp hgap), if_neg hquote]

/-- A word is read up to its end. -/
theorem word?_append (meaning : List Char → Option Token) {word rest : List Char}
    (hword : ∀ c ∈ word, Token.isWordChar c = true) (hrest : EndsValue rest) :
    Token.word? meaning (word ++ rest) = (meaning word).map fun token => (some token, rest) := by
  rw [Token.word?, takeWhile_append_eq hword hrest.isWordChar_eq_false,
    dropWhile_append_eq hword hrest.isWordChar_eq_false]

theorem readBefore_word {c : Char} {word rest : List Char} {token : Token} (hc : IsPlain c)
    (hstart : Token.isWordStart c = true) (hword : (c :: word).all Token.isWordChar = true)
    (hloose : Loose.meaning (c :: word) = some token)
    (hstrict : Strict.meaning (c :: word) = none ∨ Strict.meaning (c :: word) = some token)
    (hrest : EndsValue rest) : ReadBefore rest (c :: word) [token] := by
  have hplain (meaning : List Char → Option Token) :
      Token.plain? meaning c (word ++ rest) =
        (meaning (c :: word)).map fun token => (some token, rest) := by
    rw [Token.plain?, if_pos hstart]
    exact word?_append meaning (List.all_eq_true.mp hword) hrest
  apply ReadBefore.of_step (some token)
  · rw [loose_step_plain hc, hplain, hloose]
    rfl
  · rw [strict_step_plain hc.1 hc.2.1, hplain]
    rcases hstrict with hnone | hsome
    · exact .inl (by rw [hnone]; rfl)
    · exact .inr (by rw [hsome]; rfl)

theorem readBefore_null {chars rest : List Char} (hrest : EndsValue rest)
    (h : chars = "null".toList ∨ chars = "None".toList) :
    ReadBefore rest chars [.null] := by
  rcases h with rfl | rfl
  · exact readBefore_word (by decide) rfl rfl (by decide) (by decide) hrest
  · exact readBefore_word (by decide) rfl rfl (by decide) (by decide) hrest

theorem readBefore_bool {b : Bool} {chars rest : List Char} (hrest : EndsValue rest)
    (h : chars = (if b then "true" else "false").toList ∨
      chars = (if b then "True" else "False").toList) : ReadBefore rest chars [.bool b] := by
  cases b with
  | true =>
    rcases h with rfl | rfl
    · exact readBefore_word (by decide) rfl rfl (by decide) (by decide) hrest
    · exact readBefore_word (by decide) rfl rfl (by decide) (by decide) hrest
  | false =>
    rcases h with rfl | rfl
    · exact readBefore_word (by decide) rfl rfl (by decide) (by decide) hrest
    · exact readBefore_word (by decide) rfl rfl (by decide) (by decide) hrest

/-- The first character of a number. -/
theorem exists_chars_eq_cons (text : NumberText) :
    ∃ first others, text.chars = first :: others ∧ (first.isDigit = true ∨ first = '-') := by
  obtain ⟨first, others, hchars, hfirst⟩ := text.exists_unsignedChars_eq_cons
  by_cases hnegative : text.negative = true
  · refine ⟨'-', text.unsignedChars, ?_, .inr rfl⟩
    rw [NumberText.chars, if_pos hnegative]
    rfl
  · refine ⟨first, others, ?_, .inl hfirst⟩
    rw [NumberText.chars, if_neg hnegative, hchars]
    rfl

theorem plain?_number {first : Char} (h : first.isDigit = true ∨ first = '-')
    (meaning : List Char → Option Token) (rest : List Char) :
    Token.plain? meaning first rest = Token.number? (first :: rest) := by
  have hstart : Token.isWordStart first = false := by
    rcases h with h | rfl
    · rw [Token.isWordStart, h, Bool.not_true, Bool.and_false]
    · rfl
  have hpunctuation : Token.ofPunctuation? first = none := by
    unfold Token.ofPunctuation?
    split
    all_goals first | rfl | rcases h with h | h <;> cases h
  rw [Token.plain?, hstart, if_neg Bool.false_ne_true, hpunctuation]

theorem isPlain_of_isDigit_or {first : Char} (h : first.isDigit = true ∨ first = '-') :
    IsPlain first := by
  refine ⟨Bool.eq_false_iff.mpr ?_, ?_, ?_, ?_⟩
  · intro hgap
    rcases isGap_cases hgap with rfl | rfl | rfl | rfl <;> rcases h with h | h <;> cases h
  all_goals
    rintro rfl
    rcases h with h | h <;> cases h

/-- **A number** is read by both spellings. -/
theorem readBefore_number {text : NumberText} {rest : List Char} (h : text.NoLeadingZero)
    (hrest : EndsValue rest) : ReadBefore rest text.chars [.number text.value] := by
  obtain ⟨first, others, hchars, hfirst⟩ := exists_chars_eq_cons text
  have hplain (meaning : List Char → Option Token) :
      Token.plain? meaning first (others ++ rest) = some (some (.number text.value), rest) := by
    rw [plain?_number hfirst, ← List.cons_append, ← hchars]
    exact text.number?_append h hrest.endsNumeral
  have hkind := isPlain_of_isDigit_or hfirst
  rw [hchars]
  apply ReadBefore.of_step (some (.number text.value))
  · rw [loose_step_plain hkind, hplain]
  · right
    rw [strict_step_plain hkind.1 hkind.2.1, hplain]

/-- A bracket or a colon is read by both spellings, whatever is behind it. -/
theorem readBefore_punctuation {c : Char} {token : Token} (hc : IsPlain c)
    (hstart : Token.isWordStart c = false) (h : Token.ofPunctuation? c = some token)
    (rest : List Char) : ReadBefore rest [c] [token] := by
  have hplain (meaning : List Char → Option Token) :
      Token.plain? meaning c rest = some (some token, rest) := by
    rw [Token.plain?, hstart, if_neg Bool.false_ne_true, h]
  apply ReadBefore.of_step (some token)
  · rw [List.nil_append, loose_step_plain hc, hplain]
  · right
    rw [List.nil_append, strict_step_plain hc.1 hc.2.1, hplain]

/-! ## Texts -/

/-- **A quoted text** is read by the loose spelling; the strict one stops at it or reads it too. -/
theorem readBefore_quotedText {text : String} {chars : List Char} (h : QuotedText text chars)
    (rest : List Char) : ReadBefore rest chars [.text text] := by
  obtain @⟨quote, pieces, hquote, hpieces⟩ := h
  have hshape : pieces.flatten ++ [quote] ++ rest = pieces.flatten ++ quote :: rest := by
    rw [List.append_assoc, List.singleton_append]
  have hgap : Strict.isGap quote = false := by rcases hquote with rfl | rfl <;> rfl
  apply ReadBefore.of_step (some (.text text))
  · rw [hshape, Loose.step, if_neg (Bool.eq_false_iff.mp hgap), if_pos hquote,
      Loose.quoted?_pieces hquote hpieces, Option.map_some]
    dsimp only
    rw [String.ofList_toList]
  rw [hshape]
  rcases hquote with rfl | rfl
  · rw [Strict.step, if_neg (Bool.eq_false_iff.mp hgap), if_pos rfl]
    rcases Strict.quoted?_pieces hpieces rest with hnone | hsome
    · left
      rw [hnone, Option.map_none]
    · right
      rw [hsome, Option.map_some]
      dsimp only
      rw [joinUnits_map_toNat, String.ofList_toList]
  · -- the strict spelling knows no other quote: it looks for a number there
    left
    rw [strict_step_plain hgap (by decide)]
    rfl

/-! ## Commas -/

theorem strict_step_comma (rest : List Char) :
    Strict.step (',' :: rest) = some (some .comma, rest) :=
  strict_step_plain rfl (by decide) rest

/-- A comma with no closing bracket behind it is a token of the loose spelling. -/
theorem loose_step_comma {rest : List Char} (h : Loose.closes (rest.dropWhile isBlank) = false) :
    Loose.step (',' :: rest) = some (some .comma, rest) := by
  rw [Loose.step, if_neg (by decide), if_neg (by decide), h,
    if_neg fun hc => Bool.false_ne_true hc.2]
  rfl

/-- Behind blanks a closing bracket is seen. -/
theorem IsCloser.closes_dropWhile {bracket : Char} {closer : Token} (h : IsCloser bracket closer)
    {blanks : List Char} (hblanks : ∀ c ∈ blanks, isBlank c = true) (rest : List Char) :
    (blanks ++ bracket :: rest).dropWhile isBlank = bracket :: rest ∧
      Loose.closes (bracket :: rest) = true := by
  constructor
  · apply dropWhile_append_eq hblanks
    rintro c ⟨⟩
    cases h <;> rfl
  · cases h <;> rfl

/-- A comma with a closing bracket behind it is nothing to the loose spelling, and the blanks
between them are nothing either. -/
theorem loose_step_dropped {bracket : Char} {closer : Token} (h : IsCloser bracket closer)
    {blanks : List Char} (hblanks : ∀ c ∈ blanks, isBlank c = true) (rest : List Char) :
    Loose.step (',' :: (blanks ++ bracket :: rest)) = some (none, bracket :: rest) := by
  obtain ⟨hdrop, hcloses⟩ := h.closes_dropWhile hblanks rest
  rw [Loose.step, if_neg (by decide), if_neg (by decide), hdrop, if_pos ⟨rfl, hcloses⟩]

/-- A text that begins with something other than a blank or a closing bracket. -/
def BeginsValue (text : List Char) : Prop :=
  ∃ first others, text = first :: others ∧ isBlank first = false ∧ first ≠ ']' ∧ first ≠ '\x7d'

theorem BeginsValue.append {text : List Char} (h : BeginsValue text) (rest : List Char) :
    BeginsValue (text ++ rest) := by
  obtain ⟨first, others, rfl, hfirst⟩ := h
  exact ⟨first, others ++ rest, List.cons_append, hfirst⟩

theorem BeginsValue.closes_dropWhile {text : List Char} (h : BeginsValue text) {gap : List Char}
    (hgap : IsGap gap) : Loose.closes ((gap ++ text).dropWhile isBlank) = false := by
  obtain ⟨first, others, rfl, hblank, hlist, hrecord⟩ := h
  rw [dropWhile_append_eq fun c hc => isBlank_of_isGap (hgap c hc)]
  · unfold Loose.closes
    split
    · rename_i heq
      cases heq
      exact absurd rfl hlist
    · rename_i heq
      cases heq
      exact absurd rfl hrecord
    · rfl
  · intro c hc
    cases hc
    exact hblank

/-- **A comma between two values**, with gaps around it, is read by both spellings. -/
theorem readBefore_separator {before behind rest : List Char} (hbefore : IsGap before)
    (hbehind : IsGap behind) (hrest : BeginsValue rest) :
    ReadBefore rest (before ++ ',' :: behind) [.comma] := by
  have hcomma : ReadBefore (behind ++ rest) [','] [.comma] := by
    apply ReadBefore.of_step (some .comma)
    · exact loose_step_comma (hrest.closes_dropWhile hbehind)
    · exact .inr (strict_step_comma (behind ++ rest))
  exact (readBefore_gap hbefore _).append (hcomma.append (readBefore_gap hbehind rest))

theorem isBlank_of_isWordChar {c : Char} (h : Token.isWordChar c = true) : isBlank c = false := by
  have hA : 'A'.val.toNat = 65 := rfl
  have hZ : 'Z'.val.toNat = 90 := rfl
  have ha : 'a'.val.toNat = 97 := rfl
  have hz : 'z'.val.toNat = 122 := rfl
  have hcode : c.toNat = c.val.toNat := rfl
  have hkinds : (c.isUpper || c.isLower || c.isDigit || c == '_') = true := h
  rw [Bool.or_eq_true, Bool.or_eq_true, Bool.or_eq_true, beq_iff_eq] at hkinds
  rcases hkinds with ((hupper | hlower) | hdigit) | rfl
  · have hbounds : 'A'.val ≤ c.val ∧ c.val ≤ 'Z'.val := of_decide_eq_true hupper
    rw [UInt32.le_iff_toNat_le, UInt32.le_iff_toNat_le] at hbounds
    exact isBlank_eq_false_of_toNat (by omega) (by omega)
  · have hbounds : (decide ('a'.val ≤ c.val) && decide (c.val ≤ 'z'.val)) = true := hlower
    rw [Bool.and_eq_true, decide_eq_true_eq, decide_eq_true_eq, UInt32.le_iff_toNat_le,
      UInt32.le_iff_toNat_le] at hbounds
    exact isBlank_eq_false_of_toNat (by omega) (by omega)
  · exact isBlank_of_isDigit hdigit
  · rfl

theorem number?_eq_none {c : Char} (hdigit : c.isDigit = false) (hminus : c ≠ '-')
    (rest : List Char) : Token.number? (c :: rest) = none := by
  have hscan : Token.scanMinus (c :: rest) = (false, c :: rest) := by
    unfold Token.scanMinus
    split
    · rename_i heq
      cases heq
      exact absurd rfl hminus
    · rfl
  have hwhole : (Numeral.scan (c :: rest)).1.whole = [] :=
    List.takeWhile_cons_of_neg (Bool.eq_false_iff.mp hdigit)
  rw [Token.number?, hscan]
  dsimp only
  rw [Token.isStrictNumeral, hwhole]
  rfl

/-- A blank that is no gap is nothing to the strict spelling. -/
theorem strict_step_eq_none_of_isBlank {c : Char} (hblank : isBlank c = true)
    (hgap : Strict.isGap c = false) (rest : List Char) : Strict.step (c :: rest) = none := by
  have hne {d : Char} (hd : isBlank d = false) : c ≠ d := by
    rintro rfl
    rw [hblank] at hd
    cases hd
  have hstart : Token.isWordStart c = false := by
    cases hword : Token.isWordChar c with
    | false => rw [Token.isWordStart, hword, Bool.false_and]
    | true => exact absurd rfl (hne (isBlank_of_isWordChar hword))
  have hdigit : c.isDigit = false := by
    cases hdigit : c.isDigit with
    | false => rfl
    | true => exact absurd rfl (hne (isBlank_of_isDigit hdigit))
  have hpunctuation : Token.ofPunctuation? c = none := by
    unfold Token.ofPunctuation?
    split
    all_goals first | rfl | cases hblank
  rw [strict_step_plain hgap (hne rfl), Token.plain?, hstart, if_neg Bool.false_ne_true,
    hpunctuation]
  exact number?_eq_none hdigit (hne rfl) rest

/-- The strict spelling passes over blanks or stops at one of them. -/
theorem strict_tokens_blanks {blanks : List Char} (h : ∀ c ∈ blanks, isBlank c = true)
    (rest : List Char) : Strict.lexer.tokens (blanks ++ rest) = none ∨
      Strict.lexer.tokens (blanks ++ rest) = Strict.lexer.tokens rest := by
  induction blanks with
  | nil => exact .inr rfl
  | cons c blanks ih =>
    by_cases hgap : Strict.isGap c = true
    · have hfirst : Strict.lexer.step (c :: (blanks ++ rest)) = some (none, blanks ++ rest) :=
        strict_step_gap hgap (blanks ++ rest)
      rw [List.cons_append, Lexer.tokens_of_step hfirst]
      simp only [Option.toList_none, List.nil_append, Option.map_id']
      exact ih fun d hd => h d (List.mem_cons_of_mem c hd)
    · left
      have hfirst : Strict.lexer.step (c :: (blanks ++ rest)) = none :=
        strict_step_eq_none_of_isBlank (h c List.mem_cons_self) (Bool.eq_false_iff.mpr hgap) _
      exact Lexer.tokens_eq_none_of_step hfirst

theorem readBefore_closer {bracket : Char} {closer : Token} (h : IsCloser bracket closer)
    (rest : List Char) : ReadBefore rest [bracket] [closer] := by
  cases h with
  | list => exact readBefore_punctuation (by decide) rfl rfl rest
  | record => exact readBefore_punctuation (by decide) rfl rfl rest

/-- **A comma in front of a closing bracket**: the loose spelling passes over it, and the strict one
takes it for a token or stops behind it. -/
theorem readBefore_trailingComma {bracket : Char} {closer : Token} (h : IsCloser bracket closer)
    {blanks : List Char} (hblanks : ∀ c ∈ blanks, isBlank c = true) (rest : List Char) :
    ReadBefore rest (',' :: (blanks ++ [bracket])) [closer] := by
  have hbracket := readBefore_closer h rest
  have hshape : ',' :: (blanks ++ [bracket]) ++ rest = ',' :: (blanks ++ (bracket :: rest)) := by
    simp only [List.cons_append, List.append_assoc, List.nil_append]
  constructor
  · -- the loose step goes on at the bracket
    have hstep : Loose.lexer.step (',' :: (blanks ++ (bracket :: rest))) =
        some (none, bracket :: rest) := loose_step_dropped h hblanks rest
    rw [hshape, Lexer.tokens_of_step hstep]
    simp only [Option.toList_none, List.nil_append, Option.map_id']
    exact hbracket.loose
  · -- the strict step gives the comma, and then the blanks are met
    have hstep : Strict.lexer.step (',' :: (blanks ++ (bracket :: rest))) =
        some (some .comma, blanks ++ (bracket :: rest)) := strict_step_comma _
    rw [hshape, Lexer.tokens_of_step hstep]
    rcases strict_tokens_blanks hblanks (bracket :: rest) with hnone | hsame
    · left
      rw [hnone, Option.map_none]
    rw [hsame]
    rcases hbracket.strict with hnone | ⟨found, hfound, hmeant⟩
    · left
      rw [← List.singleton_append, hnone, Option.map_none]
    right
    refine ⟨.comma :: found, ?_, .inr ?_⟩
    · rw [← List.singleton_append, hfound, Option.map_map]
      rfl
    · rcases hmeant with rfl | hcomma
      · exact .here h []
      · exact hcomma.later .comma

/-- The end of a list or a record behind its last part: the closing bracket after a gap, with or
without a comma between them. -/
inductive ClosingText (bracket : Char) : List Char → Prop
  | plain {gap : List Char} (hgap : IsGap gap) : ClosingText bracket (gap ++ [bracket])
  | comma {gap blanks : List Char} (hgap : IsGap gap) (hblanks : ∀ c ∈ blanks, isBlank c = true) :
    ClosingText bracket (gap ++ ',' :: (blanks ++ [bracket]))

theorem readBefore_closingText {bracket : Char} {closer : Token} (hcloser : IsCloser bracket closer)
    {chars : List Char} (h : ClosingText bracket chars) (rest : List Char) :
    ReadBefore rest chars [closer] := by
  cases h with
  | plain hgap => exact (readBefore_gap hgap _).append (readBefore_closer hcloser rest)
  | comma hgap hblanks =>
    exact (readBefore_gap hgap _).append (readBefore_trailingComma hcloser hblanks rest)

/-- A gap and then a separator or a closing bracket may stand behind a value. -/
theorem endsValue_gap_append {gap : List Char} (hgap : IsGap gap) {c : Char}
    (hc : c = ',' ∨ c = ']' ∨ c = '\x7d') (rest : List Char) : EndsValue (gap ++ c :: rest) := by
  cases gap with
  | nil =>
    intro d hd
    cases hd
    exact .inr hc
  | cons first gap =>
    intro d hd
    cases hd
    exact .inl (hgap first List.mem_cons_self)

theorem endsValue_closingText {bracket : Char} {closer : Token} (hcloser : IsCloser bracket closer)
    {chars : List Char} (h : ClosingText bracket chars) (rest : List Char) :
    EndsValue (chars ++ rest) := by
  have hbracket : bracket = ',' ∨ bracket = ']' ∨ bracket = '\x7d' := by
    cases hcloser with
    | list => exact .inr (.inl rfl)
    | record => exact .inr (.inr rfl)
  cases h with
  | plain hgap =>
    rw [List.append_assoc]
    exact endsValue_gap_append hgap hbracket rest
  | comma hgap hblanks =>
    rw [List.append_assoc, List.cons_append]
    exact endsValue_gap_append hgap (.inl rfl) _

end Toolpath
