import Toolpath.Proofs.LooseTokens

/-! # Literals in the loose spelling

What a literal in the loose spelling is (`LooseLiteral`): JSON with the tokens of that spelling, and
with a comma allowed behind the last part of a list or a record.  Every text that the reader gives a
value for is such a literal of that value (`LooseLiteral.of_ofLooseText?`).

The reader never asks whether a part stands in front of a comma that it drops.  So the grammar has
two forms: with `bare` an empty list or record may hold a comma too.  The reader needs the wider
form for texts with a bare comma and for no others.
-/
namespace Toolpath

/-! ## The grammar -/

/-- A token that is a value by itself. -/
inductive IsLeaf : Token → Json → Prop
  | null : IsLeaf .null .null
  | bool (b : Bool) : IsLeaf (.bool b) (.bool b)
  | number (x : Double) : IsLeaf (.number x) (.number x)
  | text (s : String) : IsLeaf (.text s) (.text s)

mutual

/-- How a value may be written.  If bare commas are allowed, an empty list or record may hold
one. -/
inductive LooseText (bare : Prop) : Json → List Char → Prop
  | leaf {token : Token} {json : Json} {chars : List Char} (hleaf : IsLeaf token json)
    (h : LooseToken token chars) : LooseText bare json chars
  | emptyList {closing : List Char} (hclosing : ClosingText ']' closing)
    (hcomma : ',' ∈ closing → bare) : LooseText bare (.list []) ('[' :: closing)
  | list {items : List Json} {gap chars closing : List Char} (hgap : IsGap gap)
    (h : LooseItems bare items chars) (hclosing : ClosingText ']' closing) :
    LooseText bare (.list items) ('[' :: (gap ++ (chars ++ closing)))
  | emptyRecord {closing : List Char} (hclosing : ClosingText '\x7d' closing)
    (hcomma : ',' ∈ closing → bare) : LooseText bare (.record []) ('\x7b' :: closing)
  | record {fields : List (String × Json)} {gap chars closing : List Char} (hgap : IsGap gap)
    (h : LooseFields bare fields chars) (hclosing : ClosingText '\x7d' closing) :
    LooseText bare (.record fields) ('\x7b' :: (gap ++ (chars ++ closing)))

/-- How the items of a list may be written, from the first to the last character that belongs to
one of them. -/
inductive LooseItems (bare : Prop) : List Json → List Char → Prop
  | first {json : Json} {chars : List Char} (h : LooseText bare json chars) :
    LooseItems bare [json] chars
  | more {items : List Json} {json : Json} {front comma chars : List Char}
    (hitems : LooseItems bare items front) (hcomma : SeparatorText ',' comma)
    (h : LooseText bare json chars) :
    LooseItems bare (items ++ [json]) (front ++ (comma ++ chars))

/-- How the fields of a record may be written.  Of two fields with one name the later one counts. -/
inductive LooseFields (bare : Prop) : List (String × Json) → List Char → Prop
  | first {name : String} {json : Json} {nameChars colon chars : List Char}
    (hname : LooseToken (.text name) nameChars) (hcolon : SeparatorText ':' colon)
    (h : LooseText bare json chars) :
    LooseFields bare [(name, json)] (nameChars ++ (colon ++ chars))
  | more {fields : List (String × Json)} {name : String} {json : Json}
    {front comma nameChars colon chars : List Char} (hfields : LooseFields bare fields front)
    (hcomma : SeparatorText ',' comma) (hname : LooseToken (.text name) nameChars)
    (hcolon : SeparatorText ':' colon) (h : LooseText bare json chars) :
    LooseFields bare (Json.put fields name json)
      (front ++ (comma ++ (nameChars ++ (colon ++ chars))))

end

/-- A text that holds one value, with gaps around it. -/
inductive LooseLiteral (bare : Prop) (json : Json) : List Char → Prop
  | intro {before chars behind : List Char} (hbefore : IsGap before)
    (h : LooseText bare json chars) (hbehind : IsGap behind) :
    LooseLiteral bare json (before ++ chars ++ behind)

/-! ## What has been read

The reader keeps what is unfinished on a stack.  `Opened` says how the characters in front of it
come to that stack where a value is due, and `Ended` says it where one has just ended.  Each move of
the reader goes from one to the other by the tokens that it takes. -/

section Reading
variable {bare : Prop}

/-- The characters of an unfinished list behind its bracket, and its items, latest first. -/
inductive ItemsBefore (bare : Prop) : List Json → List Char → Prop
  | nothing {gap : List Char} (hgap : IsGap gap) : ItemsBefore bare [] gap
  | items {items : List Json} {gap chars comma : List Char} (hgap : IsGap gap)
    (h : LooseItems bare items chars) (hcomma : SeparatorText ',' comma) :
    ItemsBefore bare items.reverse (gap ++ (chars ++ comma))

/-- The characters of an unfinished record behind its bracket, its fields, and the name of the next
field. -/
inductive FieldsBefore (bare : Prop) : List (String × Json) → String → List Char → Prop
  | nothing {name : String} {gap nameChars colon : List Char} (hgap : IsGap gap)
    (hname : LooseToken (.text name) nameChars) (hcolon : SeparatorText ':' colon) :
    FieldsBefore bare [] name (gap ++ (nameChars ++ colon))
  | fields {fields : List (String × Json)} {name : String}
    {gap chars comma nameChars colon : List Char} (hgap : IsGap gap)
    (h : LooseFields bare fields chars) (hcomma : SeparatorText ',' comma)
    (hname : LooseToken (.text name) nameChars) (hcolon : SeparatorText ':' colon) :
    FieldsBefore bare fields name (gap ++ (chars ++ (comma ++ (nameChars ++ colon))))

/-- The characters in front of a place where a value is due. -/
inductive Opened (bare : Prop) : List Json.Unfinished → List Char → Prop
  | nothing {gap : List Char} (hgap : IsGap gap) : Opened bare [] gap
  | list {around : List Json.Unfinished} {items : List Json} {front chars : List Char}
    (hfront : Opened bare around front) (h : ItemsBefore bare items chars) :
    Opened bare (.list items :: around) (front ++ '[' :: chars)
  | record {around : List Json.Unfinished} {fields : List (String × Json)} {name : String}
    {front chars : List Char} (hfront : Opened bare around front)
    (h : FieldsBefore bare fields name chars) :
    Opened bare (.record fields name :: around) (front ++ '\x7b' :: chars)

/-- The characters in front of a place where a value has just ended. -/
inductive Ended (bare : Prop) (around : List Json.Unfinished) (json : Json) : List Char → Prop
  | intro {front chars : List Char} (hfront : Opened bare around front)
    (h : LooseText bare json chars) : Ended bare around json (front ++ chars)

/-! ### Gaps -/

theorem IsGap.append {gap more : List Char} (h : IsGap gap) (hmore : IsGap more) :
    IsGap (gap ++ more) := by
  intro c hc
  rcases List.mem_append.mp hc with hc | hc
  · exact h c hc
  · exact hmore c hc

theorem SeparatorText.append_gap {separator : Char} {chars gap : List Char}
    (h : SeparatorText separator chars) (hgap : IsGap gap) :
    SeparatorText separator (chars ++ gap) := by
  obtain ⟨hbefore, hbehind⟩ := h
  rw [List.append_assoc, List.cons_append]
  exact .between hbefore (hbehind.append hgap)

theorem ItemsBefore.append_gap {items : List Json} {chars gap : List Char}
    (h : ItemsBefore bare items chars) (hgap : IsGap gap) :
    ItemsBefore bare items (chars ++ gap) := by
  cases h with
  | nothing hfirst => exact .nothing (hfirst.append hgap)
  | items hfirst h hcomma =>
    rw [List.append_assoc, List.append_assoc]
    exact .items hfirst h (hcomma.append_gap hgap)

theorem FieldsBefore.append_gap {fields : List (String × Json)} {name : String}
    {chars gap : List Char} (h : FieldsBefore bare fields name chars) (hgap : IsGap gap) :
    FieldsBefore bare fields name (chars ++ gap) := by
  cases h with
  | nothing hfirst hname hcolon =>
    rw [List.append_assoc, List.append_assoc]
    exact .nothing hfirst hname (hcolon.append_gap hgap)
  | fields hfirst h hcomma hname hcolon =>
    simp only [List.append_assoc]
    exact .fields hfirst h hcomma hname (hcolon.append_gap hgap)

/-- A gap may stand wherever a value is due. -/
theorem Opened.append_gap {around : List Json.Unfinished} {front gap : List Char}
    (h : Opened bare around front) (hgap : IsGap gap) : Opened bare around (front ++ gap) := by
  cases h with
  | nothing hfirst => exact .nothing (hfirst.append hgap)
  | list hfront h =>
    rw [List.append_assoc, List.cons_append]
    exact .list hfront (h.append_gap hgap)
  | record hfront h =>
    rw [List.append_assoc, List.cons_append]
    exact .record hfront (h.append_gap hgap)

/-! ### Moves -/

section Moves
variable {around : List Json.Unfinished} {front chars opening closing comma nameChars colon :
  List Char} {json : Json} {items : List Json} {fields : List (String × Json)} {name next : String}

/-- A comma or a colon between two parts. -/
theorem TokenText.separatorText {separator : Char} {token : Token} (h : TokenText token chars)
    (htoken : token = .comma ∧ separator = ',' ∨ token = .colon ∧ separator = ':') :
    SeparatorText separator chars := by
  rcases htoken with ⟨rfl, rfl⟩ | ⟨rfl, rfl⟩
  · obtain ⟨gap, inner, rfl, hgap, hinner⟩ := h.exists_gap fun bracket hcloser => by cases hcloser
    cases hinner
    exact .between hgap isGap_nil
  · obtain ⟨gap, inner, rfl, hgap, hinner⟩ := h.exists_gap fun bracket hcloser => by cases hcloser
    cases hinner
    exact .between hgap isGap_nil

/-- A value without parts. -/
theorem Opened.leaf {token : Token} (h : Opened bare around front) (hleaf : IsLeaf token json)
    (htoken : TokenText token chars) : Ended bare around json (front ++ chars) := by
  obtain ⟨gap, inner, rfl, hgap, hinner⟩ :=
    htoken.exists_gap fun bracket hcloser => by cases hleaf <;> cases hcloser
  rw [← List.append_assoc]
  exact .intro (h.append_gap hgap) (.leaf hleaf hinner)

theorem Opened.emptyList (h : Opened bare around front) (hopening : TokenText .openList opening)
    (hclosing : TokenText .closeList closing) (hcomma : ',' ∈ closing → bare) :
    Ended bare around (.list []) (front ++ opening ++ closing) := by
  obtain ⟨gap, rfl, hgap⟩ := hopening.exists_opening .list
  rw [← List.append_assoc, List.append_assoc, List.singleton_append]
  exact .intro (h.append_gap hgap) (.emptyList (hclosing.closingText .list) hcomma)

theorem Opened.openList (h : Opened bare around front) (hopening : TokenText .openList opening) :
    Opened bare (.list [] :: around) (front ++ opening) := by
  obtain ⟨gap, rfl, hgap⟩ := hopening.exists_opening .list
  rw [← List.append_assoc]
  exact .list (h.append_gap hgap) (.nothing isGap_nil)

theorem Opened.emptyRecord (h : Opened bare around front)
    (hopening : TokenText .openRecord opening) (hclosing : TokenText .closeRecord closing)
    (hcomma : ',' ∈ closing → bare) :
    Ended bare around (.record []) (front ++ opening ++ closing) := by
  obtain ⟨gap, rfl, hgap⟩ := hopening.exists_opening .record
  rw [← List.append_assoc, List.append_assoc, List.singleton_append]
  exact .intro (h.append_gap hgap) (.emptyRecord (hclosing.closingText .record) hcomma)

theorem Opened.openRecord (h : Opened bare around front)
    (hopening : TokenText .openRecord opening) (hname : TokenText (.text name) nameChars)
    (hcolon : TokenText .colon colon) :
    Opened bare (.record [] name :: around) (front ++ opening ++ nameChars ++ colon) := by
  obtain ⟨gap, rfl, hgap⟩ := hopening.exists_opening .record
  obtain ⟨behind, inner, rfl, hbehind, hinner⟩ :=
    hname.exists_gap fun bracket hcloser => by cases hcloser
  have hrecord : Opened bare (.record [] name :: around)
      (front ++ gap ++ '\x7b' :: (behind ++ (inner ++ colon))) :=
    .record (h.append_gap hgap) (.nothing hbehind hinner (hcolon.separatorText (.inr ⟨rfl, rfl⟩)))
  simpa only [List.append_assoc, List.cons_append, List.nil_append] using hrecord

/-- One more item, behind those that are there. -/
theorem ItemsBefore.item (h : ItemsBefore bare items front) (hitem : LooseText bare json chars) :
    ∃ gap all, front ++ chars = gap ++ all ∧ IsGap gap ∧
      LooseItems bare (json :: items).reverse all := by
  cases h with
  | nothing hgap => exact ⟨_, chars, rfl, hgap, .first hitem⟩
  | @items _ gap inner comma hgap h hcomma =>
    refine ⟨gap, inner ++ (comma ++ chars), by simp only [List.append_assoc], hgap, ?_⟩
    rw [List.reverse_cons, List.reverse_reverse]
    exact .more h hcomma hitem

/-- One more field, behind those that are there. -/
theorem FieldsBefore.field (h : FieldsBefore bare fields name front)
    (hvalue : LooseText bare json chars) :
    ∃ gap all, front ++ chars = gap ++ all ∧ IsGap gap ∧
      LooseFields bare (Json.put fields name json) all := by
  cases h with
  | nothing hgap hname hcolon =>
    exact ⟨_, _, by simp only [List.append_assoc], hgap, .first hname hcolon hvalue⟩
  | fields hgap h hcomma hname hcolon =>
    exact ⟨_, _, by simp only [List.append_assoc], hgap, .more h hcomma hname hcolon hvalue⟩

theorem Ended.nextItem (h : Ended bare (.list items :: around) json front)
    (hcomma : TokenText .comma comma) :
    Opened bare (.list (json :: items) :: around) (front ++ comma) := by
  obtain ⟨hopened, hjson⟩ := h
  cases hopened with
  | list hfront hitems =>
    obtain ⟨gap, all, hall, hgap, hitems⟩ := hitems.item hjson
    have hlist := Opened.list hfront
      (.items hgap hitems (hcomma.separatorText (.inl ⟨rfl, rfl⟩)))
    rw [List.reverse_reverse, ← List.append_assoc, ← hall] at hlist
    simpa only [List.append_assoc, List.cons_append] using hlist

theorem Ended.closeList (h : Ended bare (.list items :: around) json front)
    (hclosing : TokenText .closeList closing) :
    Ended bare around (.list (json :: items).reverse) (front ++ closing) := by
  obtain ⟨hopened, hjson⟩ := h
  cases hopened with
  | list hfront hitems =>
    obtain ⟨gap, all, hall, hgap, hitems⟩ := hitems.item hjson
    have hlist := Ended.intro hfront (.list hgap hitems (hclosing.closingText .list))
    rw [← List.append_assoc, ← hall] at hlist
    simpa only [List.append_assoc, List.cons_append] using hlist

theorem Ended.nextField (h : Ended bare (.record fields name :: around) json front)
    (hcomma : TokenText .comma comma) (hname : TokenText (.text next) nameChars)
    (hcolon : TokenText .colon colon) :
    Opened bare (.record (Json.put fields name json) next :: around)
      (front ++ comma ++ nameChars ++ colon) := by
  obtain ⟨hopened, hjson⟩ := h
  obtain ⟨behind, inner, rfl, hbehind, hinner⟩ :=
    hname.exists_gap fun bracket hcloser => by cases hcloser
  cases hopened with
  | record hfront hfields =>
    obtain ⟨gap, all, hall, hgap, hfields⟩ := hfields.field hjson
    have hseparator := (hcomma.separatorText (.inl ⟨rfl, rfl⟩)).append_gap hbehind
    have hrecord := Opened.record hfront
      (.fields hgap hfields hseparator hinner (hcolon.separatorText (.inr ⟨rfl, rfl⟩)))
    rw [← List.append_assoc, ← hall] at hrecord
    simpa only [List.append_assoc, List.cons_append] using hrecord

theorem Ended.closeRecord (h : Ended bare (.record fields name :: around) json front)
    (hclosing : TokenText .closeRecord closing) :
    Ended bare around (.record (Json.put fields name json)) (front ++ closing) := by
  obtain ⟨hopened, hjson⟩ := h
  cases hopened with
  | record hfront hfields =>
    obtain ⟨gap, all, hall, hgap, hfields⟩ := hfields.field hjson
    have hrecord := Ended.intro hfront (.record hgap hfields (hclosing.closingText .record))
    rw [← List.append_assoc, ← hall] at hrecord
    simpa only [List.append_assoc, List.cons_append] using hrecord

end Moves

/-! ## The reader -/

/-- Behind the front of a text, where a value is due, what the reader takes makes a literal. -/
def ValueSound (bare : Prop) (around : List Json.Unfinished) (tokens : List Token) : Prop :=
  ∀ {json front text}, Json.value? around tokens = some json → Opened bare around front →
    Loose.lexer.tokens text = some tokens → (HasBareComma text → bare) →
      LooseLiteral bare json (front ++ text)

/-- The same where a value has just ended. -/
def ResumeSound (bare : Prop) (around : List Json.Unfinished) (value : Json)
    (tokens : List Token) : Prop :=
  ∀ {json front text}, Json.resume? around value tokens = some json →
    Ended bare around value front → Loose.lexer.tokens text = some tokens →
      (HasBareComma text → bare) → LooseLiteral bare json (front ++ text)

theorem HasBareComma.gap_append {gap text : List Char} (h : HasBareComma text) (hgap : IsGap gap) :
    HasBareComma (gap ++ text) := by
  induction gap with
  | nil => exact h
  | cons c gap ih =>
    have hc := hgap c List.mem_cons_self
    exact .later (loose_step_gap hc _) (ih fun d hd => hgap d (List.mem_cons_of_mem c hd))

/-- A bracket that opens, and then nothing but a comma up to the one that closes. -/
theorem hasBareComma_of_closing {bracket final : Char} {opener closer : Token}
    {opening closing rest : List Char} (hopener : IsOpener bracket opener)
    (hcloser : IsCloser final closer) (hopening : TokenText opener opening)
    (hclosing : TokenText closer closing) (hcomma : ',' ∈ closing) :
    HasBareComma (opening ++ (closing ++ rest)) := by
  obtain ⟨gap, rfl, hgap⟩ := hopening.exists_opening hopener
  have hbare := BareClosing.intro hcloser (hclosing.closingText hcloser) hcomma rest
  rw [List.append_assoc, List.singleton_append]
  exact (HasBareComma.here hopener hbare).gap_append hgap

theorem ResumeSound.leaf {around : List Json.Unfinished} {token : Token} {json : Json}
    {rest : List Token} (ih : ResumeSound bare around json rest) (hleaf : IsLeaf token json) :
    ValueSound bare around (token :: rest) := by
  intro result front text h hopened htext hbare
  have hvalue : Json.value? around (token :: rest) = Json.resume? around json rest := by
    cases hleaf <;> rw [Json.value?]
  rw [hvalue] at h
  cases LooseFront.of_tokens htext with
  | cons htoken hrest hlater =>
    rw [← List.append_assoc]
    exact ih h (hopened.leaf hleaf htoken) hrest fun hcomma => hbare (hlater hcomma)

theorem valueSound_and_resumeSound :
    (∀ around tokens, ValueSound bare around tokens) ∧
      ∀ around value tokens, ResumeSound bare around value tokens := by
  apply Json.value?.mutual_induct
  -- where a value is due: a value without parts
  case case1 =>
    intro around rest ih
    exact ih.leaf .null
  case case2 =>
    intro around b rest ih
    exact ih.leaf (.bool b)
  case case3 =>
    intro around x rest ih
    exact ih.leaf (.number x)
  case case4 =>
    intro around s rest ih
    exact ih.leaf (.text s)
  -- a list or a record that begins
  case case5 =>
    intro around rest ih json front text h hopened htext hbare
    rw [Json.value?] at h
    obtain _ | ⟨hopening, hmore, hlater⟩ := LooseFront.of_tokens htext
    obtain _ | ⟨hclosing, hrest, hlatest⟩ := LooseFront.of_tokens hmore
    rw [← List.append_assoc, ← List.append_assoc]
    refine ih h (hopened.emptyList hopening hclosing fun hcomma => ?_) hrest fun hcomma => ?_
    · exact hbare (hasBareComma_of_closing .list .list hopening hclosing hcomma)
    · exact hbare (hlater (hlatest hcomma))
  case case6 =>
    intro around rest hopens ih json front text h hopened htext hbare
    rw [Json.value?] at h
    · obtain _ | ⟨hopening, hrest, hlater⟩ := LooseFront.of_tokens htext
      rw [← List.append_assoc]
      exact ih h (hopened.openList hopening) hrest fun hcomma => hbare (hlater hcomma)
    · exact hopens
  case case7 =>
    intro around rest ih json front text h hopened htext hbare
    rw [Json.value?] at h
    obtain _ | ⟨hopening, hmore, hlater⟩ := LooseFront.of_tokens htext
    obtain _ | ⟨hclosing, hrest, hlatest⟩ := LooseFront.of_tokens hmore
    rw [← List.append_assoc, ← List.append_assoc]
    refine ih h (hopened.emptyRecord hopening hclosing fun hcomma => ?_) hrest fun hcomma => ?_
    · exact hbare (hasBareComma_of_closing .record .record hopening hclosing hcomma)
    · exact hbare (hlater (hlatest hcomma))
  case case8 =>
    intro around name rest ih json front text h hopened htext hbare
    rw [Json.value?] at h
    obtain _ | ⟨hopening, hfields, hfirst⟩ := LooseFront.of_tokens htext
    obtain _ | ⟨hname, hvalue, hsecond⟩ := LooseFront.of_tokens hfields
    obtain _ | ⟨hcolon, hrest, hthird⟩ := LooseFront.of_tokens hvalue
    rw [← List.append_assoc, ← List.append_assoc, ← List.append_assoc]
    exact ih h (hopened.openRecord hopening hname hcolon) hrest fun hcomma =>
      hbare (hfirst (hsecond (hthird hcomma)))
  -- nothing else begins a value
  case case9 =>
    intro tokens around _ _ _ _ _ _ _ _ json front text h
    rw [Json.value?] at h
    · cases h
    all_goals assumption
  -- where a value has just ended: the end of the text
  case case10 =>
    intro value json front text h hended htext _
    cases h
    obtain ⟨hgap⟩ | _ := LooseFront.of_tokens htext
    obtain ⟨hopened, hvalue⟩ := hended
    cases hopened with
    | nothing hbefore => exact .intro hbefore hvalue hgap
  -- the next part of a list or a record, or its end
  case case11 =>
    intro value items around rest ih json front text h hended htext hbare
    rw [Json.resume?] at h
    obtain _ | ⟨hcomma, hrest, hlater⟩ := LooseFront.of_tokens htext
    rw [← List.append_assoc]
    exact ih h (hended.nextItem hcomma) hrest fun hcomma => hbare (hlater hcomma)
  case case12 =>
    intro value items around rest ih json front text h hended htext hbare
    rw [Json.resume?] at h
    obtain _ | ⟨hclosing, hrest, hlater⟩ := LooseFront.of_tokens htext
    rw [← List.append_assoc]
    exact ih h (hended.closeList hclosing) hrest fun hcomma => hbare (hlater hcomma)
  case case13 =>
    intro value fields name around next rest ih json front text h hended htext hbare
    rw [Json.resume?] at h
    obtain _ | ⟨hcomma, hfields, hfirst⟩ := LooseFront.of_tokens htext
    obtain _ | ⟨hname, hvalue, hsecond⟩ := LooseFront.of_tokens hfields
    obtain _ | ⟨hcolon, hrest, hthird⟩ := LooseFront.of_tokens hvalue
    rw [← List.append_assoc, ← List.append_assoc, ← List.append_assoc]
    exact ih h (hended.nextField hcomma hname hcolon) hrest fun hcomma =>
      hbare (hfirst (hsecond (hthird hcomma)))
  case case14 =>
    intro value fields name around rest ih json front text h hended htext hbare
    rw [Json.resume?] at h
    obtain _ | ⟨hclosing, hrest, hlater⟩ := LooseFront.of_tokens htext
    rw [← List.append_assoc]
    exact ih h (hended.closeRecord hclosing) hrest fun hcomma => hbare (hlater hcomma)
  case case15 =>
    intro tokens around value _ _ _ _ _ json front text h
    rw [Json.resume?] at h
    · cases h
    all_goals assumption

end Reading

/-- **A text that the reader takes is a literal** of the value it gives.  It needs no bare commas
but for those that are in the text. -/
theorem LooseLiteral.of_ofLooseText? {bare : Prop} {text : String} {json : Json}
    (h : Json.ofLooseText? text = some json) (hbare : HasBareComma text.toList → bare) :
    LooseLiteral bare json text.toList := by
  obtain ⟨tokens, htokens, hvalue⟩ := Option.bind_eq_some_iff.mp h
  exact valueSound_and_resumeSound.1 [] tokens hvalue (.nothing isGap_nil) htokens hbare

end Toolpath
