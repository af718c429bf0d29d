import Toolpath.Proofs.StrictTexts
import Toolpath.Proofs.TokenValues
import Toolpath.Profile.Decoding
import Mathlib.Data.List.Forall2

/-! # Strict texts in the loose spelling

The loose spelling is tried where the strict one fails.  In a text that the strict one reads it
finds the same tokens but for what quoted texts say (`StrictText.sameKind`), so it finds a value
too, and which one that is can be said by another strict text (`doubledText`).  A comma too many in
front of a closing bracket is nothing to it (`TrailingCommaAdded.readings`).  Both together are
`ofLooseText?_of_ofText?`.
-/
namespace Toolpath

/-! ## Tokens of the same kind -/

/-- Tokens that differ in nothing but what a text says. -/
inductive SameKind : Token → Token → Prop
  | same {token : Token} (h : ∀ s, token ≠ .text s) : SameKind token token
  | text (s t : String) : SameKind (.text s) (.text t)

theorem SameKind.exists_text {s : String} {token : Token} (h : SameKind (.text s) token) :
    ∃ t, token = .text t := by
  cases h with
  | same h => exact absurd rfl (h s)
  | text _ t => exact ⟨t, rfl⟩

/-- Lists and records of which the same parts have been read, whatever stood there. -/
inductive SameShape : Json.Unfinished → Json.Unfinished → Prop
  | list (items others : List Json) : SameShape (.list items) (.list others)
  | record (fields others : List (String × Json)) (name other : String) :
    SameShape (.record fields name) (.record others other)

/-- Whether the reader gets to the end is decided by the kinds of the tokens and the shapes of what
is unfinished, whatever has been read so far. -/
theorem isSome_value?_and_resume? :
    (∀ around tokens, (Json.value? around tokens).isSome = true →
      ∀ {others more}, List.Forall₂ SameShape around others → List.Forall₂ SameKind tokens more →
        (Json.value? others more).isSome = true) ∧
    ∀ around value tokens, (Json.resume? around value tokens).isSome = true →
      ∀ {others more} other, List.Forall₂ SameShape around others →
        List.Forall₂ SameKind tokens more → (Json.resume? others other more).isSome = true := by
  apply Json.value?.mutual_induct
  -- where a value is due: a value without parts
  case case1 =>
    rintro around rest ih h others _ hshape (_ | ⟨⟨⟩, hrest⟩)
    rw [Json.value?] at h ⊢
    exact ih h .null hshape hrest
  case case2 =>
    rintro around b rest ih h others _ hshape (_ | ⟨⟨⟩, hrest⟩)
    rw [Json.value?] at h ⊢
    exact ih h (.bool b) hshape hrest
  case case3 =>
    rintro around x rest ih h others _ hshape (_ | ⟨⟨⟩, hrest⟩)
    rw [Json.value?] at h ⊢
    exact ih h (.number x) hshape hrest
  case case4 =>
    rintro around s rest ih h others _ hshape (_ | ⟨hs, hrest⟩)
    obtain ⟨t, rfl⟩ := hs.exists_text
    rw [Json.value?] at h ⊢
    exact ih h (.text t) hshape hrest
  -- a list or a record that begins
  case case5 =>
    rintro around rest ih h others _ hshape (_ | ⟨⟨⟩, _ | ⟨⟨⟩, hrest⟩⟩)
    rw [Json.value?] at h ⊢
    exact ih h (.list []) hshape hrest
  case case6 =>
    rintro around rest hopens ih h others _ hshape (_ | ⟨⟨⟩, hrest⟩)
    rw [Json.value?] at h ⊢
    · exact ih h (.cons (.list [] []) hshape) hrest
    · -- the other list is not empty either
      rintro more rfl
      cases hrest with
      | cons hcloser _ =>
        cases hcloser
        exact hopens _ rfl
    · exact hopens
  case case7 =>
    rintro around rest ih h others _ hshape (_ | ⟨⟨⟩, _ | ⟨⟨⟩, hrest⟩⟩)
    rw [Json.value?] at h ⊢
    exact ih h (.record []) hshape hrest
  case case8 =>
    rintro around name rest ih h others _ hshape (_ | ⟨⟨⟩, _ | ⟨hname, _ | ⟨⟨⟩, hrest⟩⟩⟩)
    obtain ⟨other, rfl⟩ := hname.exists_text
    rw [Json.value?] at h ⊢
    exact ih h (.cons (.record [] [] name other) hshape) hrest
  -- nothing else begins a value
  case case9 =>
    intro tokens around _ _ _ _ _ _ _ _ h
    rw [Json.value?] at h
    · cases h
    all_goals assumption
  -- where a value has just ended: the end of the text
  case case10 =>
    rintro value - _ _ other ⟨⟩ ⟨⟩
    rfl
  -- the next part of a list or a record, or its end
  case case11 =>
    rintro value items around rest ih h _ _ other (_ | ⟨⟨⟩, hshape⟩) (_ | ⟨⟨⟩, hrest⟩)
    rw [Json.resume?] at h ⊢
    exact ih h (.cons (.list _ _) hshape) hrest
  case case12 =>
    rintro value items around rest ih h _ _ other (_ | ⟨⟨⟩, hshape⟩) (_ | ⟨⟨⟩, hrest⟩)
    rw [Json.resume?] at h ⊢
    exact ih h _ hshape hrest
  case case13 =>
    rintro value fields name around next rest ih h _ _ other (_ | ⟨⟨⟩, hshape⟩)
      (_ | ⟨⟨⟩, _ | ⟨hnext, _ | ⟨⟨⟩, hrest⟩⟩⟩)
    obtain ⟨another, rfl⟩ := hnext.exists_text
    rw [Json.resume?] at h ⊢
    exact ih h (.cons (.record _ _ next another) hshape) hrest
  case case14 =>
    rintro value fields name around rest ih h _ _ other (_ | ⟨⟨⟩, hshape⟩) (_ | ⟨⟨⟩, hrest⟩)
    rw [Json.resume?] at h ⊢
    exact ih h _ hshape hrest
  case case15 =>
    intro tokens around value _ _ _ _ _ h
    rw [Json.resume?] at h
    · cases h
    all_goals assumption

/-- **Tokens of a value**, with other texts in them, are tokens of a value. -/
theorem isSome_value?_of_sameKind {tokens more : List Token} (h : List.Forall₂ SameKind tokens more)
    (hvalue : (Json.value? [] tokens).isSome = true) : (Json.value? [] more).isSome = true :=
  isSome_value?_and_resume?.1 [] tokens hvalue .nil h

theorem StrictPiece.sameKind {rest chars : List Char} {token loose : Option Token}
    (h : StrictPiece rest token loose chars) :
    List.Forall₂ SameKind token.toList loose.toList := by
  cases h with
  | gap => exact .nil
  | text => exact .cons (.text _ _) .nil
  | word _ _ hmeaning _ =>
    refine .cons (.same fun s hs => ?_) .nil
    subst hs
    rcases meaning_cases hmeaning with heq | heq | heq <;> rw [heq] at hmeaning <;> cases hmeaning
  | punctuation hc =>
    refine .cons (.same fun s hs => ?_) .nil
    subst hs
    unfold Token.ofPunctuation? at hc
    split at hc <;> cases hc
  | number => exact .cons (.same nofun) .nil

/-- The two spellings differ in the texts they find and in nothing else. -/
theorem StrictText.sameKind {text : List Char} {tokens looses : List Token}
    (h : StrictText text tokens looses) : List.Forall₂ SameKind tokens looses := by
  induction h with
  | nil => exact .nil
  | cons hpiece _ ih => exact List.rel_append hpiece.sameKind ih

/-! ## Whole texts -/

theorem endsValue_nil : EndsValue [] := nofun

namespace StrictText
variable {text : List Char} {tokens looses : List Token}

theorem strict_tokens (h : StrictText text tokens looses) :
    Strict.lexer.tokens text = some tokens := by
  have hread := h.strict_append endsValue_nil
  rwa [List.append_nil, Lexer.tokens_nil, Option.map_some, List.append_nil] at hread

theorem loose_tokens (h : StrictText text tokens looses) (hcomma : ¬HasTrailingComma tokens) :
    Loose.lexer.tokens text = some looses := by
  have hread := h.loose_append endsValue_nil Strict.lexer.tokens_nil
    (by rwa [List.take_nil, List.append_nil])
  rwa [List.append_nil, Lexer.tokens_nil, Option.map_some, List.append_nil] at hread

end StrictText

/-- A text with a second backslash wherever the loose spelling keeps the first. -/
def doubledText (text : String) : String := String.ofList (doubled text.toList)

/-- Every escape in a text is known to the loose spelling. -/
def SharesEscapes (text : String) : Prop := ∀ c ∈ escapes text.toList, c ∈ knownEscapes

theorem all_mem_knownEscapes_iff (text : String) :
    ((escapes text.toList).all fun c => decide (c ∈ knownEscapes)) = true ↔ SharesEscapes text := by
  simp only [List.all_eq_true, decide_eq_true_eq, SharesEscapes]

instance (text : String) : Decidable (SharesEscapes text) :=
  decidable_of_iff _ (all_mem_knownEscapes_iff text)

theorem SharesEscapes.doubledText_eq {text : String} (h : SharesEscapes text) :
    doubledText text = text := by
  rw [doubledText, doubled_eq_self h, String.ofList_toList]

/-- A text and the same with one more comma, put behind whole tokens and in front of a bracket that
closes a list or a record. -/
inductive TrailingCommaAdded : String → String → Prop
  | added {front gap rest : List Char} {bracket : Char} {closer : Token}
    (hfront : (Strict.lexer.tokens front).isSome = true) (hgap : IsGap gap)
    (hcloser : IsCloser bracket closer) :
    TrailingCommaAdded (String.ofList (front ++ (gap ++ bracket :: rest)))
      (String.ofList (front ++ ',' :: (gap ++ bracket :: rest)))

/-- A strict text falls into pieces with no comma in front of a closing bracket. -/
theorem exists_strictText {text : String} {json : Json} (h : Json.ofText? text = some json) :
    ∃ tokens looses, StrictText text.toList tokens looses ∧ ¬HasTrailingComma tokens ∧
      Json.value? [] tokens = some json := by
  obtain ⟨tokens, htokens, hvalue⟩ := Option.bind_eq_some_iff.mp h
  obtain ⟨looses, htext⟩ := StrictText.of_tokens htokens
  refine ⟨tokens, looses, htext, fun hcomma => ?_, hvalue⟩
  rw [value?_eq_none_of_hasTrailingComma hcomma] at hvalue
  cases hvalue

/-- **The loose spelling reads every strict text**, and reads what the strict spelling does in the
doubled text. -/
theorem exists_ofLooseText?_eq {text : String} {json : Json} (h : Json.ofText? text = some json) :
    ∃ other, Json.ofLooseText? text = some other ∧
      Json.ofText? (doubledText text) = some other := by
  obtain ⟨tokens, looses, htext, hcomma, hvalue⟩ := exists_strictText h
  have hsome := isSome_value?_of_sameKind htext.sameKind (Option.isSome_of_eq_some hvalue)
  obtain ⟨other, hother⟩ := Option.isSome_iff_exists.mp hsome
  refine ⟨other, ?_, ?_⟩
  · rw [Json.ofLooseText?, Json.read?, htext.loose_tokens hcomma, Option.bind_some, hother]
  · rw [Json.ofText?, Json.read?, doubledText, String.toList_ofList, htext.doubles.strict_tokens,
      Option.bind_some, hother]

/-- A comma at the very end stands in front of nothing. -/
theorem HasTrailingComma.of_append_comma {tokens : List Token}
    (h : HasTrailingComma (tokens ++ [.comma])) : HasTrailingComma tokens := by
  induction tokens with
  | nil =>
    cases h with
    | later _ h => cases h
  | cons first tokens ih =>
    rw [List.cons_append] at h
    generalize heq : tokens ++ [Token.comma] = others at h
    cases h with
    | here hcloser rest =>
      cases tokens with
      | nil =>
        cases heq
        cases hcloser
      | cons second tokens =>
        cases (List.cons.inj heq).1
        exact .here hcloser tokens
    | later _ h =>
      subst heq
      exact .later first (ih h)

/-- A comma in front of a closing bracket is nothing to the loose spelling. -/
theorem loose_tokens_comma {gap : List Char} {bracket : Char} {closer : Token} (hgap : IsGap gap)
    (hcloser : IsCloser bracket closer) (rest : List Char) :
    Loose.lexer.tokens (',' :: (gap ++ bracket :: rest)) =
      Loose.lexer.tokens (gap ++ bracket :: rest) := by
  have hstep : Loose.lexer.step (',' :: (gap ++ bracket :: rest)) = some (none, bracket :: rest) :=
    loose_step_dropped hcloser (fun c hc => isBlank_of_isGap (hgap c hc)) rest
  rw [Lexer.tokens_of_step hstep, (readBefore_gap hgap (bracket :: rest)).loose]
  rfl

/-- **One more comma in front of a closing bracket** makes a strict text one that only the loose
spelling reads, and it reads what it reads without the comma. -/
theorem TrailingCommaAdded.readings {text longer : String} (hadded : TrailingCommaAdded text longer)
    {json : Json} (h : Json.ofText? text = some json) :
    Json.ofText? longer = none ∧ Json.ofLooseText? longer = Json.ofLooseText? text := by
  obtain ⟨tokens, _, htext, hcomma, _⟩ := exists_strictText h
  obtain @⟨front, gap, rest, bracket, closer, hfront, hgap, hcloser⟩ := hadded
  obtain ⟨fronts, hfronts⟩ := Option.isSome_iff_exists.mp hfront
  obtain ⟨looses, hpieces⟩ := StrictText.of_tokens hfronts
  have hends : EndsValue (gap ++ bracket :: rest) := by
    have hclosing := endsValue_closingText hcloser (.plain hgap) rest
    rwa [List.append_assoc, List.singleton_append] at hclosing
  have hendsComma : EndsValue (',' :: (gap ++ bracket :: rest)) := by
    rintro c ⟨⟩
    exact .inr (.inl rfl)
  -- the tokens of the text are those in front of the comma, the bracket and more
  have hread := htext.strict_tokens
  rw [String.toList_ofList, hpieces.strict_append hends] at hread
  obtain ⟨behind, hbehind, rfl⟩ := Option.map_eq_some_iff.mp hread
  obtain ⟨hdrop, hcloses⟩ :=
    hcloser.closes_dropWhile (fun c hc => isBlank_of_isGap (hgap c hc)) rest
  obtain ⟨found, next, more, hnext, rfl⟩ :=
    exists_closer_of_closes hbehind (hdrop.symm ▸ hcloses)
  have hstep : Strict.lexer.step (',' :: (gap ++ bracket :: rest)) =
      some (some .comma, gap ++ bracket :: rest) := strict_step_comma _
  have hbehindComma : Strict.lexer.tokens (',' :: (gap ++ bracket :: rest)) =
      some (.comma :: next :: more) := by
    rw [Lexer.tokens_of_step hstep, hbehind]
    rfl
  constructor
  · rw [Json.ofText?, Json.read?, String.toList_ofList, hpieces.strict_append hendsComma,
      hbehindComma, Option.map_some, Option.bind_some]
    have htrailing := (HasTrailingComma.here hnext more).append_left fronts
    exact value?_eq_none_of_hasTrailingComma htrailing []
  · have hcommaFront : ¬HasTrailingComma fronts := fun hfronts => hcomma (hfronts.append_right _)
    have hcommaNext : ¬HasTrailingComma (fronts ++ [next]) := by
      intro hnext
      refine hcomma ?_
      rw [List.append_cons]
      exact hnext.append_right more
    rw [Json.ofLooseText?, Json.ofLooseText?, Json.read?, Json.read?, String.toList_ofList,
      String.toList_ofList, hpieces.loose_append hends hbehind hcommaNext,
      hpieces.loose_append hendsComma hbehindComma fun h => hcommaFront h.of_append_comma,
      loose_tokens_comma hgap hcloser rest]

/-- **The loose spelling on strict texts.**  It reads every text that the strict spelling reads, and
reads there what the strict spelling reads once every escape that it does not know has its backslash
doubled.  Where it knows all escapes, the value is the same.  A text with one more comma in front of
a closing bracket is left to the loose spelling and read by it as without the comma, so a profile is
the same then where all escapes are known. -/
theorem ofLooseText?_of_ofText? {text : String} {json : Json} (h : Json.ofText? text = some json) :
    (∃ other, Json.ofLooseText? text = some other ∧ Json.ofText? (doubledText text) = some other) ∧
      (SharesEscapes text → Json.ofLooseText? text = some json) ∧
      ∀ longer, TrailingCommaAdded text longer →
        Json.ofText? longer = none ∧ Json.ofEitherText? longer = Json.ofLooseText? text ∧
          (SharesEscapes text → Profile.ofText longer = Profile.ofText text) := by
  obtain ⟨other, hloose, hdoubled⟩ := exists_ofLooseText?_eq h
  have hshared (hshares : SharesEscapes text) : Json.ofLooseText? text = some json := by
    rw [hshares.doubledText_eq] at hdoubled
    rw [hloose, ← hdoubled, h]
  refine ⟨⟨other, hloose, hdoubled⟩, hshared, fun longer hadded => ?_⟩
  obtain ⟨hnone, hsame⟩ := hadded.readings h
  have heither : Json.ofEitherText? longer = Json.ofLooseText? text := by
    rw [Json.ofEitherText?, hnone, hsame]
    rfl
  refine ⟨hnone, heither, fun hshares => ?_⟩
  have hstrict : Json.ofEitherText? text = some json := by
    rw [Json.ofEitherText?, h]
    rfl
  rw [Profile.ofText, Profile.ofText, heither, hstrict, hshared hshares]

/-- A list of one text with an escape that both spellings know. -/
theorem ofLooseText?_of_ofText?_newline :
    Json.ofText? "[\"\\n\"]" = some (.list [.text "\n"]) ∧
      TrailingCommaAdded "[\"\\n\"]" "[\"\\n\",]" ∧
      Json.ofEitherText? "[\"\\n\",]" = some (.list [.text "\n"]) := by
  have hbody : StrictBody ['\\', 'n'] ['\n'.toNat] ['\n'] := .escaped (d := '\n') rfl .nil
  have hopen {rest : List Char} : StrictPiece rest (some .openList) (some .openList) ['['] :=
    .punctuation rfl
  have hclose : StrictText ([']'] ++ []) _ _ := .cons (.punctuation rfl) .nil
  have htext : StrictText "[\"\\n\"]".toList [.openList, .text "\n", .closeList]
      [.openList, .text "\n", .closeList] := .cons hopen (.cons (.text hbody) hclose)
  have hfront : StrictText ['[', '"', '\\', 'n', '"'] [.openList, .text "\n"]
      [.openList, .text "\n"] := .cons hopen (.cons (.text hbody) .nil)
  have hread : Json.ofText? "[\"\\n\"]" = some (.list [.text "\n"]) := by
    rw [Json.ofText?, Json.read?, htext.strict_tokens]
    simp [Json.value?, Json.resume?]
  have hgap : IsGap [] := fun c hc => by cases hc
  have hadded : TrailingCommaAdded "[\"\\n\"]" "[\"\\n\",]" :=
    @TrailingCommaAdded.added _ [] [] ']' _ (by rw [hfront.strict_tokens]; rfl) hgap .list
  obtain ⟨_, hshared, hlonger⟩ := ofLooseText?_of_ofText? hread
  refine ⟨hread, hadded, ?_⟩
  rw [(hlonger _ hadded).2.1, hshared (by decide)]

/-- The escape of a 16-bit unit is kept as it stands by the loose spelling. -/
theorem not_forall_ofLooseText?_eq :
    ¬∀ text json, Json.ofText? text = some json → Json.ofLooseText? text = some json := by
  intro h
  have hbody : StrictBody ['\\', 'u', '0', '0', '4', '8'] [0x48] ['\\', 'u', '0', '0', '4', '8'] :=
    .unit (by decide) .nil
  have htext : StrictText "\"\\u0048\"".toList [.text "H"] [.text "\\u0048"] :=
    .cons (.text hbody) .nil
  have hstrict : Json.ofText? "\"\\u0048\"" = some (.text "H") := by
    rw [Json.ofText?, Json.read?, htext.strict_tokens]
    simp [Json.value?, Json.resume?]
  have hcomma : ¬HasTrailingComma [.text "H"] := by
    rintro (_ | ⟨_, ⟨⟩⟩)
  have hloose : Json.ofLooseText? "\"\\u0048\"" = some (.text "\\u0048") := by
    rw [Json.ofLooseText?, Json.read?, htext.loose_tokens hcomma]
    simp [Json.value?, Json.resume?]
  have hsame := (h _ _ hstrict).symm.trans hloose
  revert hsame
  simp

end Toolpath
