import Toolpath.Proofs.LooseLiterals
import Toolpath.Proofs.LooseReadings

/-! # What literals are read as

Every literal in the loose spelling is read as the value it is a literal of
(`LooseLiteral.ofLooseText?_eq`), so the grammar and the reader agree
(`ofLooseText?_iff_looseLiteral`).  The reader takes a text that is a literal without bare commas,
and it takes some with bare commas too, though a comma should stand behind a part: an empty list
that holds a comma is read like one that does not (`not_forall_looseLiteral`).
-/
namespace Toolpath

/-! ## Parts in front of a text -/

/-- What the loose spelling reads where some characters stand in front of a text.  Bare commas are
among the characters only if they are allowed. -/
structure ReadsLoosely (bare : Prop) (rest chars : List Char) (tokens : List Token) : Prop where
  tokens_eq : Loose.lexer.tokens (chars ++ rest) = (Loose.lexer.tokens rest).map (tokens ++ ·)
  bare_or : HasBareComma (chars ++ rest) → bare ∨ HasBareComma rest

namespace ReadsLoosely
variable {bare : Prop} {rest front chars : List Char} {tokens more : List Token}

theorem nil (rest : List Char) : ReadsLoosely bare rest [] [] :=
  ⟨Option.map_id'.symm, .inr⟩

/-- **Parts one after another** give their tokens one after another. -/
theorem append (hfront : ReadsLoosely bare (chars ++ rest) front tokens)
    (hchars : ReadsLoosely bare rest chars more) :
    ReadsLoosely bare rest (front ++ chars) (tokens ++ more) := by
  constructor
  · rw [List.append_assoc, hfront.tokens_eq, hchars.tokens_eq, Option.map_map]
    simp only [Function.comp_def, List.append_assoc]
  · rw [List.append_assoc]
    intro hcomma
    rcases hfront.bare_or hcomma with hbare | hcomma
    · exact .inl hbare
    · exact hchars.bare_or hcomma

/-- A part that is passed over in one step. -/
theorem of_skip (hstep : Loose.step (chars ++ rest) = some (none, rest)) :
    ReadsLoosely bare rest chars [] := by
  have hread : Loose.lexer.step (chars ++ rest) = some (none, rest) := hstep
  refine ⟨Lexer.tokens_of_step hread, fun hcomma => ?_⟩
  rcases hcomma.of_step hstep with ⟨bracket, opener, -, htoken, -⟩ | hcomma
  · cases htoken
  · exact .inr hcomma

/-- A part that is read in one step and opens nothing. -/
theorem of_token {token : Token} (hstep : Loose.step (chars ++ rest) = some (some token, rest))
    (hopener : ∀ bracket, ¬IsOpener bracket token) : ReadsLoosely bare rest chars [token] := by
  have hread : Loose.lexer.step (chars ++ rest) = some (some token, rest) := hstep
  refine ⟨Lexer.tokens_of_step hread, fun hcomma => ?_⟩
  rcases hcomma.of_step hstep with ⟨bracket, opener, hopens, htoken, -⟩ | hcomma
  · cases htoken
    exact absurd hopens (hopener bracket)
  · exact .inr hcomma

/-- A bracket that opens, with a comma right behind it only if that is allowed. -/
theorem opener {bracket : Char} {opener : Token} (h : IsOpener bracket opener)
    (hbare : BareClosing rest → bare) : ReadsLoosely bare rest [bracket] [opener] := by
  have hstep : Loose.lexer.step ([bracket] ++ rest) = some (some opener, rest) := h.loose_step rest
  refine ⟨Lexer.tokens_of_step hstep, fun hcomma => ?_⟩
  rcases hcomma.of_step (h.loose_step rest) with ⟨-, -, -, -, hclosing⟩ | hcomma
  · exact .inl (hbare hclosing)
  · exact .inr hcomma

theorem gap {gap : List Char} (h : IsGap gap) (rest : List Char) :
    ReadsLoosely bare rest gap [] := by
  induction gap with
  | nil => exact nil rest
  | cons c gap ih =>
    have hfirst : ReadsLoosely bare (gap ++ rest) [c] [] :=
      of_skip (loose_step_gap (h c List.mem_cons_self) (gap ++ rest))
    exact hfirst.append (ih fun d hd => h d (List.mem_cons_of_mem c hd))

theorem closer {bracket : Char} {closer : Token} (h : IsCloser bracket closer)
    (rest : List Char) : ReadsLoosely bare rest [bracket] [closer] := by
  apply of_token (h.loose_step rest)
  intro other hopener
  cases h <;> cases hopener

/-- The end of a list or a record is read as its bracket, with a comma in front of it or not. -/
theorem closingText {bracket : Char} {closer : Token} (hcloser : IsCloser bracket closer)
    (h : ClosingText bracket chars) (rest : List Char) :
    ReadsLoosely bare rest chars [closer] := by
  cases h with
  | plain hgap => exact (gap hgap _).append (.closer hcloser rest)
  | @comma before blanks hgap hblanks =>
    have hdropped : ReadsLoosely bare ([bracket] ++ rest) (',' :: blanks) [] :=
      of_skip (loose_step_dropped hcloser hblanks rest)
    exact (gap hgap _).append (hdropped.append (.closer hcloser rest))

end ReadsLoosely

/-! ## The beginning of a part -/

/-- A text that begins with something other than a blank, a closing bracket or a comma. -/
def BeginsPart (text : List Char) : Prop := BeginsValue text ∧ text.head? ≠ some ','

theorem BeginsPart.append {text : List Char} (h : BeginsPart text) (rest : List Char) :
    BeginsPart (text ++ rest) := by
  obtain ⟨⟨first, others, rfl, hfirst⟩, hcomma⟩ := h
  exact ⟨⟨first, others ++ rest, List.cons_append, hfirst⟩, hcomma⟩

theorem BareClosing.exists_dropWhile {text : List Char} (h : BareClosing text) :
    ∃ others, text.dropWhile isBlank = ',' :: others := by
  obtain @⟨bracket, closer, closing, hcloser, hclosing, hcomma, rest⟩ := h
  cases hclosing with
  | plain hgap =>
    -- no comma is a gap or a bracket
    exfalso
    rcases List.mem_append.mp hcomma with hcomma | hcomma
    · exact absurd (hgap ',' hcomma) (by decide)
    · cases List.mem_singleton.mp hcomma
      cases hcloser
  | @comma gap blanks hgap _ =>
    refine ⟨blanks ++ [bracket] ++ rest, ?_⟩
    rw [List.append_assoc, List.cons_append]
    apply dropWhile_append_eq fun c hc => isBlank_of_isGap (hgap c hc)
    rintro c ⟨⟩
    rfl

/-- Where a part begins, no list or record ends. -/
theorem BeginsPart.not_bareClosing {text : List Char} (h : BeginsPart text) {gap : List Char}
    (hgap : IsGap gap) : ¬BareClosing (gap ++ text) := by
  intro hbare
  obtain ⟨others, hothers⟩ := hbare.exists_dropWhile
  obtain ⟨⟨first, more, rfl, hblank, -⟩, hcomma⟩ := h
  rw [dropWhile_append_eq fun c hc => isBlank_of_isGap (hgap c hc)] at hothers
  · cases hothers
    exact hcomma rfl
  · rintro c ⟨⟩
    exact hblank

/-- In front of a closing bracket a comma is the first thing only if there is one. -/
theorem ClosingText.comma_mem {bracket : Char} {closer : Token} {closing rest : List Char}
    (h : ClosingText bracket closing) (hcloser : IsCloser bracket closer)
    (hbare : BareClosing (closing ++ rest)) : ',' ∈ closing := by
  cases h with
  | plain hgap =>
    obtain ⟨others, hothers⟩ := hbare.exists_dropWhile
    rw [List.append_assoc, List.singleton_append,
      (hcloser.closes_dropWhile (fun c hc => isBlank_of_isGap (hgap c hc)) rest).1] at hothers
    cases hothers
    cases hcloser
  | comma hgap hblanks => simp

/-! ## Values without parts -/

theorem IsLeaf.spells {token : Token} {json : Json} (h : IsLeaf token json) :
    Spells json [token] := by
  cases h with
  | null => exact spells_null
  | bool b => exact spells_bool b
  | number x => exact spells_number x
  | text s => exact spells_text s

theorem LooseToken.beginsPart_text {text : String} {chars : List Char}
    (h : LooseToken (.text text) chars) : BeginsPart chars := by
  cases h with
  | text hquote h => rcases hquote with rfl | rfl <;> exact ⟨⟨_, _, rfl, by decide⟩, by simp⟩

theorem IsLeaf.beginsPart {token : Token} {json : Json} {chars : List Char}
    (h : IsLeaf token json) (htoken : LooseToken token chars) : BeginsPart chars := by
  cases h with
  | null =>
    cases htoken with
    | null hchars => rcases hchars with rfl | rfl <;> exact ⟨⟨_, _, rfl, by decide⟩, by decide⟩
  | bool b =>
    cases htoken with
    | bool hchars =>
      cases b <;> rcases hchars with rfl | rfl <;> exact ⟨⟨_, _, rfl, by decide⟩, by decide⟩
  | number x =>
    cases htoken with
    | @number text hlead =>
      refine ⟨text.beginsValue, ?_⟩
      obtain ⟨first, others, hchars, hfirst⟩ := exists_chars_eq_cons text
      rw [hchars]
      rintro ⟨⟩
      rcases hfirst with hfirst | hfirst <;> cases hfirst
  | text s => exact htoken.beginsPart_text

/-- A value without parts is read in one step. -/
theorem IsLeaf.loose_step {token : Token} {json : Json} {chars rest : List Char}
    (h : IsLeaf token json) (htoken : LooseToken token chars) (hrest : EndsValue rest) :
    Loose.step (chars ++ rest) = some (some token, rest) := by
  cases h with
  | null =>
    cases htoken with
    | null hchars =>
      rcases hchars with rfl | rfl
      · exact loose_step_word rfl rfl (by decide) hrest
      · exact loose_step_word rfl rfl (by decide) hrest
  | bool b =>
    cases htoken with
    | bool hchars =>
      cases b with
      | true =>
        rcases hchars with rfl | rfl
        · exact loose_step_word rfl rfl (by decide) hrest
        · exact loose_step_word rfl rfl (by decide) hrest
      | false =>
        rcases hchars with rfl | rfl
        · exact loose_step_word rfl rfl (by decide) hrest
        · exact loose_step_word rfl rfl (by decide) hrest
  | number x =>
    cases htoken with
    | number hlead =>
      obtain ⟨first, others, hchars, hplain, hread⟩ :=
        exists_plain?_number hlead hrest.endsNumeral
      rw [hchars, List.cons_append, loose_step_plain hplain]
      exact hread _
  | text s => exact loose_step_text htoken rest

namespace ReadsLoosely
variable {bare : Prop} {rest chars : List Char}

theorem leaf {token : Token} {json : Json} (h : IsLeaf token json) (htoken : LooseToken token chars)
    (hrest : EndsValue rest) : ReadsLoosely bare rest chars [token] := by
  apply of_token (h.loose_step htoken hrest)
  intro bracket hopener
  cases h <;> cases hopener

theorem text {text : String} (h : LooseToken (.text text) chars) (rest : List Char) :
    ReadsLoosely bare rest chars [.text text] :=
  of_token (loose_step_text h rest) fun _ hopener => by cases hopener

/-- A comma or a colon is read with the gaps around it. -/
theorem separator {separator : Char} {token : Token} (h : SeparatorText separator chars)
    (hstep : ∀ gap, IsGap gap →
      Loose.step (separator :: (gap ++ rest)) = some (some token, gap ++ rest))
    (hopener : ∀ bracket, ¬IsOpener bracket token) : ReadsLoosely bare rest chars [token] := by
  cases h with
  | @between before behind hbefore hbehind =>
    have hseparator : ReadsLoosely bare (behind ++ rest) [separator] [token] :=
      of_token (hstep behind hbehind) hopener
    exact (gap hbefore _).append (hseparator.append (gap hbehind rest))

theorem comma (h : SeparatorText ',' chars) (hrest : BeginsPart rest) :
    ReadsLoosely bare rest chars [.comma] := by
  apply separator h
  · intro gap hgap
    exact loose_step_comma (hrest.1.closes_dropWhile hgap)
  · intro bracket hopener
    cases hopener

theorem colon (h : SeparatorText ':' chars) (rest : List Char) :
    ReadsLoosely bare rest chars [.colon] := by
  apply separator h
  · intro gap _
    exact loose_step_punctuation rfl (by decide) (gap ++ rest)
  · intro bracket hopener
    cases hopener

end ReadsLoosely

/-! ## Items and fields -/

/-- Tokens that the reader takes, behind an opening bracket, for the items of a list up to the end
of the last of them. -/
inductive ListsItems : List Json → List Token → Prop
  | intro {before : List Json} {last : Json} {tokens : List Token}
    (h : ∀ around rest, Json.value? around (.openList :: (tokens ++ rest)) =
      Json.resume? (.list before :: around) last rest) :
    ListsItems (last :: before).reverse tokens

/-- The same for the fields of a record. -/
inductive ListsFields : List (String × Json) → List Token → Prop
  | intro {before : List (String × Json)} {name : String} {last : Json} {tokens : List Token}
    (h : ∀ around rest, Json.value? around (.openRecord :: (tokens ++ rest)) =
      Json.resume? (.record before name :: around) last rest) :
    ListsFields (Json.put before name last) tokens

section Parts
variable {json : Json} {items : List Json} {fields : List (String × Json)}
  {tokens front : List Token}

theorem Spells.firstItem (h : Spells json tokens) : ListsItems [json] tokens := by
  refine @ListsItems.intro [] json tokens fun around rest => ?_
  rw [Json.value?, h.value?_append]
  exact fun others => h.opens others rest

theorem ListsItems.more (hitems : ListsItems items front) (h : Spells json tokens) :
    ListsItems (items ++ [json]) (front ++ .comma :: tokens) := by
  obtain @⟨before, last, _, hfront⟩ := hitems
  rw [← List.reverse_cons]
  refine .intro fun around rest => ?_
  rw [List.append_assoc, List.cons_append, hfront, Json.resume?, h.value?_append]

theorem ListsItems.list (h : ListsItems items tokens) :
    Spells (.list items) (.openList :: (tokens ++ [.closeList])) := by
  obtain ⟨htokens⟩ := h
  refine ⟨nofun, fun around rest => ?_⟩
  rw [List.cons_append, List.append_assoc, List.singleton_append, htokens, Json.resume?]

theorem Spells.firstField (h : Spells json tokens) (name : String) :
    ListsFields [(name, json)] (.text name :: .colon :: tokens) := by
  refine @ListsFields.intro [] name json _ fun around rest => ?_
  rw [List.cons_append, List.cons_append, Json.value?, h.value?_append]

theorem ListsFields.more (hfields : ListsFields fields front) (h : Spells json tokens)
    (name : String) :
    ListsFields (Json.put fields name json)
      (front ++ .comma :: .text name :: .colon :: tokens) := by
  obtain ⟨hfront⟩ := hfields
  refine .intro fun around rest => ?_
  simp only [List.append_assoc, List.cons_append]
  rw [hfront, Json.resume?, h.value?_append]

theorem ListsFields.record (h : ListsFields fields tokens) :
    Spells (.record fields) (.openRecord :: (tokens ++ [.closeRecord])) := by
  obtain ⟨htokens⟩ := h
  refine ⟨nofun, fun around rest => ?_⟩
  rw [List.cons_append, List.append_assoc, List.singleton_append, htokens, Json.resume?]

end Parts

/-! ## Reading literals -/

/-- Characters that are read as tokens of some kind, in front of anything that may stand behind a
value. -/
def ReadsLooselyAs (bare : Prop) (kind : List Token → Prop) (chars : List Char) : Prop :=
  BeginsPart chars ∧
    ∃ tokens, kind tokens ∧ ∀ rest, EndsValue rest → ReadsLoosely bare rest chars tokens

namespace ReadsLooselyAs
variable {bare : Prop} {kind inner : List Token → Prop} {bracket final : Char}
  {opener closer : Token} {json : Json} {items : List Json} {fields : List (String × Json)}
  {name : String} {gap chars front closing comma nameChars colon : List Char}

theorem leaf {token : Token} (h : IsLeaf token json) (htoken : LooseToken token chars) :
    ReadsLooselyAs bare (Spells json) chars :=
  ⟨h.beginsPart htoken, _, h.spells, fun _ hrest => .leaf h htoken hrest⟩

theorem beginsPart_opener (h : IsOpener bracket opener) (others : List Char) :
    BeginsPart (bracket :: others) := by
  refine ⟨h.beginsValue others, ?_⟩
  cases h <;> simp

theorem empty (hopener : IsOpener bracket opener) (hcloser : IsCloser final closer)
    (hclosing : ClosingText final closing) (hcomma : ',' ∈ closing → bare)
    (hkind : kind [opener, closer]) : ReadsLooselyAs bare kind (bracket :: closing) := by
  refine ⟨beginsPart_opener hopener _, _, hkind, fun rest _ => ?_⟩
  have hopens : ReadsLoosely bare (closing ++ rest) [bracket] [opener] :=
    .opener hopener fun hbare => hcomma (hclosing.comma_mem hcloser hbare)
  exact hopens.append (.closingText hcloser hclosing rest)

theorem enclosed (h : ReadsLooselyAs bare inner chars) (hopener : IsOpener bracket opener)
    (hcloser : IsCloser final closer) (hgap : IsGap gap) (hclosing : ClosingText final closing)
    (hkind : ∀ tokens, inner tokens → kind (opener :: (tokens ++ [closer]))) :
    ReadsLooselyAs bare kind (bracket :: (gap ++ (chars ++ closing))) := by
  obtain ⟨hbegins, tokens, hinner, hread⟩ := h
  refine ⟨beginsPart_opener hopener _, _, hkind tokens hinner, fun rest _ => ?_⟩
  have hopens : ReadsLoosely bare (gap ++ (chars ++ closing) ++ rest) [bracket] [opener] := by
    apply ReadsLoosely.opener hopener
    rw [List.append_assoc, List.append_assoc]
    exact fun hbare => absurd hbare ((hbegins.append _).not_bareClosing hgap)
  have hchars := hread (closing ++ rest) (endsValue_closingText hcloser hclosing rest)
  have hend := hchars.append (.closingText hcloser hclosing rest)
  exact hopens.append ((ReadsLoosely.gap hgap _).append hend)

theorem firstItem (h : ReadsLooselyAs bare (Spells json) chars) :
    ReadsLooselyAs bare (ListsItems [json]) chars := by
  obtain ⟨hbegins, tokens, hspells, hread⟩ := h
  exact ⟨hbegins, tokens, hspells.firstItem, hread⟩

theorem moreItems (hitems : ReadsLooselyAs bare (ListsItems items) front)
    (hcomma : SeparatorText ',' comma) (h : ReadsLooselyAs bare (Spells json) chars) :
    ReadsLooselyAs bare (ListsItems (items ++ [json])) (front ++ (comma ++ chars)) := by
  obtain ⟨hbegins, others, hlists, hfront⟩ := hitems
  obtain ⟨hpart, tokens, hspells, hread⟩ := h
  refine ⟨hbegins.append _, _, hlists.more hspells, fun rest hrest => ?_⟩
  have hothers := hfront (comma ++ chars ++ rest) (by
    rw [List.append_assoc]
    exact hcomma.endsValue (chars ++ rest))
  have hseparator : ReadsLoosely bare (chars ++ rest) comma [.comma] :=
    .comma hcomma (hpart.append rest)
  exact hothers.append (hseparator.append (hread rest hrest))

/-- A name, a colon and a value. -/
theorem field {tokens : List Token}
    (hname : LooseToken (.text name) nameChars) (hcolon : SeparatorText ':' colon)
    (hread : ∀ rest, EndsValue rest → ReadsLoosely bare rest chars tokens) {rest : List Char}
    (hrest : EndsValue rest) :
    ReadsLoosely bare rest (nameChars ++ (colon ++ chars)) (.text name :: .colon :: tokens) :=
  (ReadsLoosely.text hname _).append ((ReadsLoosely.colon hcolon _).append (hread rest hrest))

theorem firstField (hname : LooseToken (.text name) nameChars) (hcolon : SeparatorText ':' colon)
    (h : ReadsLooselyAs bare (Spells json) chars) :
    ReadsLooselyAs bare (ListsFields [(name, json)]) (nameChars ++ (colon ++ chars)) := by
  obtain ⟨_, tokens, hspells, hread⟩ := h
  exact ⟨hname.beginsPart_text.append _, _, hspells.firstField name, fun rest hrest =>
    field hname hcolon hread hrest⟩

theorem moreFields (hfields : ReadsLooselyAs bare (ListsFields fields) front)
    (hcomma : SeparatorText ',' comma) (hname : LooseToken (.text name) nameChars)
    (hcolon : SeparatorText ':' colon) (h : ReadsLooselyAs bare (Spells json) chars) :
    ReadsLooselyAs bare (ListsFields (Json.put fields name json))
      (front ++ (comma ++ (nameChars ++ (colon ++ chars)))) := by
  obtain ⟨hbegins, others, hlists, hfront⟩ := hfields
  obtain ⟨_, tokens, hspells, hread⟩ := h
  refine ⟨hbegins.append _, _, hlists.more hspells name, fun rest hrest => ?_⟩
  have hothers := hfront (comma ++ (nameChars ++ (colon ++ chars)) ++ rest) (by
    rw [List.append_assoc]
    exact hcomma.endsValue _)
  have hseparator : ReadsLoosely bare (nameChars ++ (colon ++ chars) ++ rest) comma [.comma] :=
    .comma hcomma ((hname.beginsPart_text.append (colon ++ chars)).append rest)
  exact hothers.append (hseparator.append (field hname hcolon hread hrest))

end ReadsLooselyAs

mutual

/-- **Every way of writing a value** is read as tokens that spell it. -/
theorem LooseText.readsLooselyAs {bare : Prop} {json : Json} {chars : List Char} :
    LooseText bare json chars → ReadsLooselyAs bare (Spells json) chars
  | .leaf hleaf h => .leaf hleaf h
  | .emptyList hclosing hcomma => .empty .list .list hclosing hcomma spells_list_nil
  | .list hgap h hclosing =>
    h.readsLooselyAs.enclosed .list .list hgap hclosing fun _ hitems => hitems.list
  | .emptyRecord hclosing hcomma => .empty .record .record hclosing hcomma spells_record_nil
  | .record hgap h hclosing =>
    h.readsLooselyAs.enclosed .record .record hgap hclosing fun _ hfields => hfields.record

theorem LooseItems.readsLooselyAs {bare : Prop} {items : List Json} {chars : List Char} :
    LooseItems bare items chars → ReadsLooselyAs bare (ListsItems items) chars
  | .first h => h.readsLooselyAs.firstItem
  | .more hitems hcomma h => hitems.readsLooselyAs.moreItems hcomma h.readsLooselyAs

theorem LooseFields.readsLooselyAs {bare : Prop} {fields : List (String × Json)}
    {chars : List Char} :
    LooseFields bare fields chars → ReadsLooselyAs bare (ListsFields fields) chars
  | .first hname hcolon h => .firstField hname hcolon h.readsLooselyAs
  | .more hfields hcomma hname hcolon h =>
    hfields.readsLooselyAs.moreFields hcomma hname hcolon h.readsLooselyAs

end

theorem not_hasBareComma_nil : ¬HasBareComma [] := by
  intro h
  cases h with
  | later hstep _ => cases hstep

/-- **Every literal is read** as the value it is a literal of, and a bare comma in it is one that is
allowed. -/
theorem LooseLiteral.ofLooseText?_eq {bare : Prop} {text : String} {json : Json}
    (h : LooseLiteral bare json text.toList) :
    Json.ofLooseText? text = some json ∧ (HasBareComma text.toList → bare) := by
  generalize hchars : text.toList = chars at h
  obtain @⟨before, inner, behind, hbefore, hinner, hbehind⟩ := h
  obtain ⟨_, tokens, hspells, hread⟩ := hinner.readsLooselyAs
  have hends : EndsValue (behind ++ []) := by
    intro c hc
    rw [List.append_nil] at hc
    exact .inl (hbehind c (List.mem_of_mem_head? hc))
  have hbegin : ReadsLoosely bare (inner ++ (behind ++ [])) before [] := .gap hbefore _
  obtain ⟨htokens, hbare⟩ := (hbegin.append (hread _ hends)).append (.gap hbehind [])
  rw [List.append_nil] at htokens hbare
  constructor
  · rw [Json.ofLooseText?, Json.read?, hchars, htokens, Lexer.tokens_nil, Option.map_some,
      Option.bind_some, List.append_nil, List.append_nil]
    exact hspells.value?_eq
  · intro hcomma
    rcases hbare hcomma with hallowed | hnil
    · exact hallowed
    · exact absurd hnil not_hasBareComma_nil

/-- **The reader and the grammar agree.**  The loose spelling gives a value for a text just when the
text is a literal of that value, if a comma may also be all that an empty list or record holds.  In
a text without such a comma every other comma has to stand behind a part.  What neither spelling can
read is reported. -/
theorem ofLooseText?_iff_looseLiteral (text : String) :
    (∀ json, Json.ofLooseText? text = some json ↔ LooseLiteral True json text.toList) ∧
      (∀ json, LooseLiteral False json text.toList ↔
        Json.ofLooseText? text = some json ∧ ¬HasBareComma text.toList) ∧
      (Json.ofText? text = none → (∀ json, ¬LooseLiteral True json text.toList) →
        Profile.ofText text = do
          Outcome.warn .undecodableText
          return Profile.defaults) := by
  refine ⟨fun json => ⟨fun h => ?_, fun h => ?_⟩, fun json => ⟨fun h => ?_, ?_⟩, ?_⟩
  · exact .of_ofLooseText? h fun _ => trivial
  · exact h.ofLooseText?_eq.1
  · exact h.ofLooseText?_eq
  · rintro ⟨h, hcomma⟩
    exact .of_ofLooseText? h hcomma
  · intro hstrict hgrammar
    have hloose : Json.ofLooseText? text = none := by
      cases hloose : Json.ofLooseText? text with
      | none => rfl
      | some json => exact absurd (.of_ofLooseText? hloose fun _ => trivial) (hgrammar json)
    rw [Profile.ofText, Json.ofEitherText?, hstrict, hloose]
    rfl

/-- A comma in front of the only item: no reading, and the default profile with a warning. -/
theorem ofLooseText?_iff_looseLiteral_leadingComma :
    Json.ofText? "[,null]" = none ∧ (∀ json, ¬LooseLiteral True json "[,null]".toList) ∧
      Profile.ofText "[,null]" = do
        Outcome.warn .undecodableText
        return Profile.defaults := by
  have hnull : StrictPiece [']'] (some .null) (some .null) "null".toList :=
    .word rfl (List.all_eq_true.mp rfl) (by decide) (by rintro d ⟨⟩; rfl)
  have htext : StrictText "[,null]".toList [.openList, .comma, .null, .closeList]
      [.openList, .comma, .null, .closeList] :=
    .cons (.punctuation (c := '[') rfl) (.cons (.punctuation (c := ',') rfl)
      (.cons hnull (.cons (.punctuation (c := ']') rfl) .nil)))
  have hvalue : Json.value? [] [.openList, .comma, .null, .closeList] = none := by
    simp [Json.value?]
  have hcomma : ¬HasTrailingComma [.openList, .comma, .null, .closeList] := by
    rintro (_ | ⟨_, hbracket | ⟨_, _ | ⟨_, _ | ⟨_, ⟨⟩⟩⟩⟩⟩)
    cases hbracket
  have hstrict : Json.ofText? "[,null]" = none := by
    rw [Json.ofText?, Json.read?, htext.strict_tokens, Option.bind_some, hvalue]
  have hloose : Json.ofLooseText? "[,null]" = none := by
    rw [Json.ofLooseText?, Json.read?, htext.loose_tokens hcomma, Option.bind_some, hvalue]
  obtain ⟨hread, -, hreport⟩ := ofLooseText?_iff_looseLiteral "[,null]"
  have hgrammar (json : Json) : ¬LooseLiteral True json "[,null]".toList := by
    rw [← hread, hloose]
    exact fun hsome => by cases hsome
  exact ⟨hstrict, hgrammar, hreport hstrict hgrammar⟩

/-- A list with nothing but a comma in it is read, though no item stands in front of the comma. -/
theorem not_forall_looseLiteral :
    ¬∀ text json, Json.ofText? text = none → Json.ofLooseText? text = some json →
      LooseLiteral False json text.toList := by
  intro h
  have hclosing : ClosingText ']' [',', ']'] :=
    @ClosingText.comma _ [] [] isGap_nil fun c hc => by cases hc
  have hliteral : LooseLiteral True (.list []) "[,]".toList :=
    .intro isGap_nil (.emptyList hclosing fun _ => trivial) isGap_nil
  have hbare : HasBareComma "[,]".toList :=
    .here .list (.intro .list hclosing List.mem_cons_self [])
  have htext : StrictText "[,]".toList [.openList, .comma, .closeList]
      [.openList, .comma, .closeList] :=
    .cons (.punctuation (c := '[') rfl) (.cons (.punctuation (c := ',') rfl)
      (.cons (.punctuation (c := ']') rfl) .nil))
  have hstrict : Json.ofText? "[,]" = none := by
    rw [Json.ofText?, Json.read?, htext.strict_tokens]
    exact value?_eq_none_of_hasTrailingComma (.later _ (.here .list [])) []
  have hclaimed := h "[,]" (.list []) hstrict hliteral.ofLooseText?_eq.1
  exact hclaimed.ofLooseText?_eq.2 hbare

end Toolpath
