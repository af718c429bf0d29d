import Toolpath.Proofs.Literals
import Toolpath.Proofs.StrictTexts

/-! # Tokens in the loose spelling

How a token may be written in the loose spelling (`LooseToken`).  A step of that spelling takes one
character between tokens off the front of a text, or a token, or a comma that stands in front of a
closing bracket (`looseStep_of_step`).  So the first token of a text that can be read stands behind
a gap, and behind a comma too if it is a closing bracket (`LooseFront.of_tokens`).

A comma is dropped wherever a closing bracket follows, hence also where it is the only thing between
two brackets.  `HasBareComma` says that reading a text comes to such a place.
-/
namespace Toolpath

/-! ## Quoted texts -/

/-- The characters of a text and how they may be written between two quotes.  Behind a backslash
there is one of the known escapes, or else the backslash stands for itself. -/
inductive BodyText (quote : Char) : List Char → List Char → Prop
  | nil : BodyText quote [] []
  | char {c : Char} {piece text chars : List Char} (hpiece : CharText quote c piece)
    (h : BodyText quote text chars) : BodyText quote (c :: text) (piece ++ chars)
  | kept {c : Char} {text chars : List Char} (hc : c ∉ knownEscapes)
    (h : BodyText quote text chars) : BodyText quote ('\\' :: c :: text) ('\\' :: c :: chars)

/-- A pair with a backslash is a character that is written so, or it is kept. -/
theorem unescape_cases (quote c : Char) :
    (∃ d, Loose.unescape c = [d] ∧ CharText quote d ['\\', c]) ∨
      (c ∉ knownEscapes ∧ Loose.unescape c = ['\\', c]) := by
  unfold Loose.unescape
  split
  · exact .inl ⟨'\n', rfl, .newline⟩
  · exact .inl ⟨'\t', rfl, .tab⟩
  · exact .inl ⟨'\r', rfl, .carriageReturn⟩
  · exact .inl ⟨'\\', rfl, .escaped (.inl rfl)⟩
  · exact .inl ⟨'\'', rfl, .escaped (.inr (.inr rfl))⟩
  · exact .inl ⟨'"', rfl, .escaped (.inr (.inl rfl))⟩
  · rename_i hn ht hr hbackslash hsingle hdouble
    refine .inr ⟨?_, rfl⟩
    simp only [knownEscapes, List.mem_cons, List.not_mem_nil, or_false, not_or]
    exact ⟨hn, ht, hr, hbackslash, hsingle, hdouble⟩

/-- **What is read between two quotes** is a body. -/
theorem BodyText.of_quoted? {quote : Char} {text inner rest : List Char}
    (h : Loose.quoted? quote text = some (inner, rest)) :
    ∃ chars, text = chars ++ quote :: rest ∧ BodyText quote inner chars := by
  fun_induction Loose.quoted? quote text generalizing inner rest with
  | case1 => cases h
  | case2 c tail ih =>
    obtain ⟨⟨more, behind⟩, hmore, heq⟩ := Option.map_eq_some_iff.mp h
    cases heq
    obtain ⟨chars, rfl, hbody⟩ := ih hmore
    rcases unescape_cases quote c with ⟨d, hd, hpiece⟩ | ⟨hkept, hc⟩
    · rw [hd]
      exact ⟨['\\', c] ++ chars, rfl, .char hpiece hbody⟩
    · rw [hc]
      exact ⟨'\\' :: c :: chars, rfl, .kept hkept hbody⟩
  | case3 tail _ =>
    cases h
    exact ⟨[], rfl, .nil⟩
  | case4 c tail hbackslash hquote ih =>
    obtain ⟨⟨more, behind⟩, hmore, heq⟩ := Option.map_eq_some_iff.mp h
    cases heq
    -- a backslash at the very end would have no closing quote behind it
    have hne : c ≠ '\\' := by
      intro hc
      cases tail with
      | nil => cases hmore
      | cons d others => exact hbackslash d others hc rfl
    obtain ⟨chars, rfl, hbody⟩ := ih hmore
    exact ⟨[c] ++ chars, rfl, .char (.raw hne hquote) hbody⟩

/-- **A body is read** up to the quote behind it. -/
theorem BodyText.quoted?_append {quote : Char} {text chars : List Char}
    (h : BodyText quote text chars) (hquote : quote = '"' ∨ quote = '\'') (rest : List Char) :
    Loose.quoted? quote (chars ++ quote :: rest) = some (text, rest) := by
  induction h with
  | nil => exact Loose.quoted?_quote hquote rest
  | char hpiece _ ih =>
    rw [List.append_assoc, Loose.quoted?_piece hpiece, ih]
    rfl
  | @kept c text chars hc _ ih =>
    have hunescape : Loose.unescape c = ['\\', c] := by
      rcases unescape_cases quote c with ⟨d, -, hpiece⟩ | ⟨-, hkept⟩
      · exfalso
        cases hpiece with
        | escaped hd => rcases hd with rfl | rfl | rfl <;> exact hc (by decide)
        | newline => exact hc (by decide)
        | tab => exact hc (by decide)
        | carriageReturn => exact hc (by decide)
      · exact hkept
    rw [List.cons_append, List.cons_append, Loose.quoted?_escape, ih, hunescape]
    rfl

/-! ## Tokens -/

/-- How a token may be written. -/
inductive LooseToken : Token → List Char → Prop
  | null {chars : List Char} (h : chars = "null".toList ∨ chars = "None".toList) :
    LooseToken .null chars
  | bool {b : Bool} {chars : List Char}
    (h : chars = (if b then "true" else "false").toList ∨
      chars = (if b then "True" else "False").toList) :
    LooseToken (.bool b) chars
  | number {text : NumberText} (h : text.NoLeadingZero) :
    LooseToken (.number text.value) text.chars
  | text {text : String} {quote : Char} {chars : List Char} (hquote : quote = '"' ∨ quote = '\'')
    (h : BodyText quote text.toList chars) :
    LooseToken (.text text) (quote :: (chars ++ [quote]))
  | openList : LooseToken .openList ['[']
  | closeList : LooseToken .closeList [']']
  | openRecord : LooseToken .openRecord ['\x7b']
  | closeRecord : LooseToken .closeRecord ['\x7d']
  | comma : LooseToken .comma [',']
  | colon : LooseToken .colon [':']

/-- The part that one step of the loose spelling takes off the front of a text. -/
inductive LooseStep : List Char → Option Token → List Char → Prop
  | gap {c : Char} (hc : Strict.isGap c = true) (rest : List Char) : LooseStep (c :: rest) none rest
  | token {token : Token} {chars : List Char} (h : LooseToken token chars) (rest : List Char) :
    LooseStep (chars ++ rest) (some token) rest
  | dropped {blanks : List Char} {bracket : Char} {closer : Token}
    (hblanks : ∀ c ∈ blanks, isBlank c = true) (hcloser : IsCloser bracket closer)
    (rest : List Char) : LooseStep (',' :: (blanks ++ bracket :: rest)) none (bracket :: rest)

theorem looseToken_of_meaning {word : List Char} {token : Token}
    (h : Loose.meaning word = some token) : LooseToken token word := by
  have hword {name : String} (heq : String.ofList word = name) : word = name.toList := by
    rw [← heq, String.toList_ofList]
  unfold Loose.meaning at h
  split at h
  · rename_i heq
    cases h
    exact .null (.inr (hword heq))
  · rename_i heq
    cases h
    exact .bool (.inr (hword heq))
  · rename_i heq
    cases h
    exact .bool (.inr (hword heq))
  · rcases meaning_cases h with rfl | rfl | rfl
    · cases h
      exact .null (.inl rfl)
    · cases h
      exact .bool (.inl rfl)
    · cases h
      exact .bool (.inl rfl)

theorem looseToken_of_punctuation {c : Char} {token : Token}
    (h : Token.ofPunctuation? c = some token) : LooseToken token [c] := by
  unfold Token.ofPunctuation? at h
  split at h
  all_goals cases h
  all_goals constructor

/-- **A step takes a gap, a token, or a comma in front of a closing bracket.** -/
theorem looseStep_of_step {text rest : List Char} {token : Option Token}
    (h : Loose.step text = some (token, rest)) : LooseStep text token rest := by
  cases text with
  | nil => cases h
  | cons c tail =>
    rw [Loose.step] at h
    split at h
    · rename_i hgap
      cases h
      exact .gap hgap rest
    split at h
    · rename_i hquote
      obtain ⟨⟨inner, behind⟩, hquoted, heq⟩ := Option.map_eq_some_iff.mp h
      cases heq
      obtain ⟨chars, rfl, hbody⟩ := BodyText.of_quoted? hquoted
      have htoken : LooseToken (.text (String.ofList inner)) (c :: (chars ++ [c])) :=
        .text hquote (by rwa [String.toList_ofList])
      have hstep := LooseStep.token htoken rest
      rwa [List.cons_append, List.append_assoc, List.singleton_append] at hstep
    split at h
    · rename_i hcomma
      obtain ⟨rfl, hcloses⟩ := hcomma
      cases h
      have hsplit := List.takeWhile_append_dropWhile (p := isBlank) (l := tail)
      cases hrest : tail.dropWhile isBlank with
      | nil =>
        rw [hrest] at hcloses
        cases hcloses
      | cons bracket behind =>
        rw [hrest] at hcloses hsplit
        obtain ⟨closer, hcloser⟩ := exists_isCloser_of_closes hcloses
        rw [← hsplit]
        exact .dropped (List.all_eq_true.mp List.all_takeWhile) hcloser behind
    unfold Token.plain? at h
    split at h
    · obtain ⟨token, hmeaning, heq⟩ := Option.map_eq_some_iff.mp h
      cases heq
      have hstep := LooseStep.token (looseToken_of_meaning hmeaning)
        ((c :: tail).dropWhile Token.isWordChar)
      rwa [List.takeWhile_append_dropWhile] at hstep
    split at h
    · rename_i token hpunctuation
      cases h
      exact .token (looseToken_of_punctuation hpunctuation) rest
    · obtain ⟨-, found, hlead, htext, rfl⟩ := Token.exists_of_number? h
      rw [htext]
      exact .token (.number hlead) rest

/-! ## Steps over tokens -/

/-- A word that means something is read up to its end. -/
theorem loose_step_word {c : Char} {word rest : List Char} {token : Token}
    (hc : Token.isWordStart c = true) (hword : (c :: word).all Token.isWordChar = true)
    (hmeaning : Loose.meaning (c :: word) = some token) (hrest : EndsValue rest) :
    Loose.step (c :: (word ++ rest)) = some (some token, rest) := by
  rw [loose_step_plain (isPlain_of_isWordStart hc)]
  exact plain?_word hc (List.all_eq_true.mp hword) hmeaning hrest.isWordChar_eq_false

/-- A bracket or a colon is read whatever is behind it. -/
theorem loose_step_punctuation {c : Char} {token : Token} (hc : Token.ofPunctuation? c = some token)
    (hcomma : token ≠ .comma) (rest : List Char) :
    Loose.step (c :: rest) = some (some token, rest) := by
  rcases ofPunctuation?_cases hc with ⟨-, rfl⟩ | ⟨hstart, hplain⟩
  · exact absurd rfl hcomma
  · rw [loose_step_plain hplain]
    exact plain?_punctuation hc hstart _ rest

theorem IsOpener.loose_step {bracket : Char} {opener : Token} (h : IsOpener bracket opener)
    (rest : List Char) : Loose.step (bracket :: rest) = some (some opener, rest) := by
  cases h with
  | list => exact loose_step_punctuation rfl (by decide) rest
  | record => exact loose_step_punctuation rfl (by decide) rest

theorem IsCloser.loose_step {bracket : Char} {closer : Token} (h : IsCloser bracket closer)
    (rest : List Char) : Loose.step (bracket :: rest) = some (some closer, rest) := by
  cases h with
  | list => exact loose_step_punctuation rfl (by decide) rest
  | record => exact loose_step_punctuation rfl (by decide) rest

/-- A quoted text is read whatever is behind it. -/
theorem loose_step_text {text : String} {chars : List Char} (h : LooseToken (.text text) chars)
    (rest : List Char) : Loose.step (chars ++ rest) = some (some (.text text), rest) := by
  cases h with
  | @text _ quote body hquote hbody =>
    have hgap : Strict.isGap quote = false := by rcases hquote with rfl | rfl <;> rfl
    rw [List.cons_append, List.append_assoc, List.singleton_append, Loose.step,
      if_neg (Bool.eq_false_iff.mp hgap), if_pos hquote, hbody.quoted?_append hquote,
      Option.map_some]
    dsimp only
    rw [String.ofList_toList]

/-! ## Commas with nothing in front of them -/

/-- The end of a list or a record where a comma is the first thing in it. -/
inductive BareClosing : List Char → Prop
  | intro {bracket : Char} {closer : Token} {closing : List Char}
    (hcloser : IsCloser bracket closer) (h : ClosingText bracket closing) (hcomma : ',' ∈ closing)
    (rest : List Char) : BareClosing (closing ++ rest)

/-- Reading a text comes to a bracket that begins a list or a record, and there is nothing but a
comma between it and a bracket that ends one. -/
inductive HasBareComma : List Char → Prop
  | here {bracket : Char} {opener : Token} {rest : List Char} (hopener : IsOpener bracket opener)
    (h : BareClosing rest) : HasBareComma (bracket :: rest)
  | later {text rest : List Char} {token : Option Token}
    (hstep : Loose.step text = some (token, rest)) (h : HasBareComma rest) : HasBareComma text

/-- Such a place is right here or in what is behind the first step. -/
theorem HasBareComma.of_step {text rest : List Char} {token : Option Token} (h : HasBareComma text)
    (hstep : Loose.step text = some (token, rest)) :
    (∃ bracket opener, IsOpener bracket opener ∧ token = some opener ∧ BareClosing rest) ∨
      HasBareComma rest := by
  cases h with
  | here hopener hbare =>
    rw [hopener.loose_step] at hstep
    cases hstep
    exact .inl ⟨_, _, hopener, rfl, hbare⟩
  | later hother h =>
    cases hother.symm.trans hstep
    exact .inr h

/-! ## The front of a text -/

/-- A token with what may stand in front of it. -/
inductive TokenText : Token → List Char → Prop
  | plain {token : Token} {gap chars : List Char} (hgap : IsGap gap) (h : LooseToken token chars) :
    TokenText token (gap ++ chars)
  | closing {bracket : Char} {closer : Token} {chars : List Char}
    (hcloser : IsCloser bracket closer) (h : ClosingText bracket chars) : TokenText closer chars

theorem isGap_nil : IsGap [] := fun c hc => by cases hc

theorem IsGap.cons {c : Char} {gap : List Char} (hc : Strict.isGap c = true) (h : IsGap gap) :
    IsGap (c :: gap) := by
  intro d hd
  rcases List.mem_cons.mp hd with rfl | hd
  · exact hc
  · exact h d hd

theorem TokenText.gap_cons {c : Char} {token : Token} {chars : List Char}
    (hc : Strict.isGap c = true) (h : TokenText token chars) : TokenText token (c :: chars) := by
  cases h with
  | plain hgap h => exact .plain (hgap.cons hc) h
  | closing hcloser h =>
    refine .closing hcloser ?_
    cases h with
    | plain hgap => exact .plain (hgap.cons hc)
    | comma hgap hblanks => exact .comma (hgap.cons hc) hblanks

/-- A token that closes nothing stands behind a gap. -/
theorem TokenText.exists_gap {token : Token} {chars : List Char} (h : TokenText token chars)
    (hcloser : ∀ bracket, ¬IsCloser bracket token) :
    ∃ gap inner, chars = gap ++ inner ∧ IsGap gap ∧ LooseToken token inner := by
  cases h with
  | plain hgap h => exact ⟨_, _, rfl, hgap, h⟩
  | closing hcloses => exact absurd hcloses (hcloser _)

/-- A bracket that opens stands behind a gap. -/
theorem TokenText.exists_opening {bracket : Char} {opener : Token} {chars : List Char}
    (h : TokenText opener chars) (hopener : IsOpener bracket opener) :
    ∃ gap, chars = gap ++ [bracket] ∧ IsGap gap := by
  obtain ⟨gap, inner, rfl, hgap, hinner⟩ :=
    h.exists_gap fun other hcloser => by cases hopener <;> cases hcloser
  refine ⟨gap, ?_, hgap⟩
  cases hopener with
  | list =>
    cases hinner
    rfl
  | record =>
    cases hinner
    rfl

/-- A bracket that closes stands behind a gap, with or without a comma. -/
theorem TokenText.closingText {bracket : Char} {closer : Token} {chars : List Char}
    (h : TokenText closer chars) (hcloser : IsCloser bracket closer) :
    ClosingText bracket chars := by
  cases h with
  | plain hgap h =>
    cases hcloser with
    | list =>
      cases h
      exact .plain hgap
    | record =>
      cases h
      exact .plain hgap
  | closing hother h =>
    cases hcloser with
    | list =>
      cases hother
      exact h
    | record =>
      cases hother
      exact h

/-- What is at the front of a text that is read as certain tokens. -/
inductive LooseFront : List Token → List Char → Prop
  | nil {gap : List Char} (hgap : IsGap gap) : LooseFront [] gap
  | cons {token : Token} {tokens : List Token} {chars rest : List Char} (h : TokenText token chars)
    (hrest : Loose.lexer.tokens rest = some tokens)
    (hbare : HasBareComma rest → HasBareComma (chars ++ rest)) :
    LooseFront (token :: tokens) (chars ++ rest)

theorem LooseFront.gap_cons {c : Char} {tokens : List Token} {text : List Char}
    (hc : Strict.isGap c = true) (h : LooseFront tokens text) : LooseFront tokens (c :: text) := by
  cases h with
  | nil hgap => exact .nil (hgap.cons hc)
  | cons h hrest hbare =>
    exact .cons (h.gap_cons hc) hrest fun hbareComma =>
      .later (loose_step_gap hc _) (hbare hbareComma)

/-- **The first token of a text** stands behind a gap, or behind a gap and a comma if it is a
closing bracket.  A text without tokens is a gap. -/
theorem LooseFront.of_tokens {text : List Char} {tokens : List Token}
    (h : Loose.lexer.tokens text = some tokens) : LooseFront tokens text := by
  cases hcase : text with
  | nil =>
    rw [hcase, Lexer.tokens_nil] at h
    cases h
    exact .nil isGap_nil
  | cons c tail =>
    rw [← hcase]
    cases hstep : Loose.lexer.step text with
    | none =>
      rw [hcase] at h hstep
      rw [Lexer.tokens_eq_none_of_step hstep] at h
      cases h
    | some found =>
      obtain ⟨token, rest⟩ := found
      have hread : Loose.step text = some (token, rest) := hstep
      rw [Lexer.tokens_of_step hstep] at h
      obtain ⟨more, hmore, rfl⟩ := Option.map_eq_some_iff.mp h
      have hlater := of_tokens hmore
      cases looseStep_of_step hread with
      | gap hc => exact hlater.gap_cons hc
      | token htoken =>
        exact .cons (@TokenText.plain _ [] _ isGap_nil htoken) hmore (.later hread)
      | @dropped blanks bracket closer hblanks hcloser behind =>
        -- the first token is the bracket, and the comma belongs to it
        have hbracket : Loose.lexer.step (bracket :: behind) = some (some closer, behind) :=
          hcloser.loose_step behind
        rw [Lexer.tokens_of_step hbracket] at hmore
        obtain ⟨others, hothers, rfl⟩ := Option.map_eq_some_iff.mp hmore
        have hshape : ',' :: (blanks ++ bracket :: behind) =
            [] ++ ',' :: (blanks ++ [bracket]) ++ behind := by simp
        rw [hshape]
        refine .cons (.closing hcloser (.comma isGap_nil hblanks)) hothers fun hbare => ?_
        rw [← hshape]
        exact .later hread (.later (hcloser.loose_step behind) hbare)
termination_by text.length
decreasing_by exact Loose.length_step_lt hread

end Toolpath
