import Toolpath.Proofs.TokenValues

/-! # Literals

A value may be written in many ways (`LiteralText`): with quotes of either kind, with the words of
either spelling, with gaps around everything, and with a comma behind the last part of a list or a
record.  Whichever way is chosen, the value is read back (`ofEitherText?_literalText`).  The loose
spelling always gives it; the strict one, which is tried first, gives it or nothing.
-/
namespace Toolpath

/-- A comma or a colon with gaps around it. -/
inductive SeparatorText (separator : Char) : List Char → Prop
  | between {before behind : List Char} (hbefore : IsGap before) (hbehind : IsGap behind) :
    SeparatorText separator (before ++ separator :: behind)

mutual

/-- How a value may be written. -/
inductive LiteralText : Json → List Char → Prop
  | null {chars : List Char} (h : chars = "null".toList ∨ chars = "None".toList) :
    LiteralText .null chars
  | bool {b : Bool} {chars : List Char}
    (h : chars = (if b then "true" else "false").toList ∨
      chars = (if b then "True" else "False").toList) :
    LiteralText (.bool b) chars
  | number {text : NumberText} (h : text.NoLeadingZero) :
    LiteralText (.number text.value) text.chars
  | text {text : String} {chars : List Char} (h : QuotedText text chars) :
    LiteralText (.text text) chars
  | emptyList {gap : List Char} (hgap : IsGap gap) : LiteralText (.list []) ('[' :: (gap ++ [']']))
  | list {items : List Json} {gap chars closing : List Char} (hgap : IsGap gap)
    (h : ItemsText items chars) (hclosing : ClosingText ']' closing) :
    LiteralText (.list items) ('[' :: (gap ++ (chars ++ closing)))
  | emptyRecord {gap : List Char} (hgap : IsGap gap) :
    LiteralText (.record []) ('\x7b' :: (gap ++ ['\x7d']))
  | record {fields : List (String × Json)} {gap chars closing : List Char} (hgap : IsGap gap)
    (hnames : (fields.map Prod.fst).Nodup) (h : FieldsText fields chars)
    (hclosing : ClosingText '\x7d' closing) :
    LiteralText (.record fields) ('\x7b' :: (gap ++ (chars ++ closing)))

/-- How the items of a list may be written, from the first to the last character that belongs to
one of them. -/
inductive ItemsText : List Json → List Char → Prop
  | last {json : Json} {chars : List Char} (h : LiteralText json chars) : ItemsText [json] chars
  | cons {json : Json} {items : List Json} {chars comma more : List Char}
    (h : LiteralText json chars) (hcomma : SeparatorText ',' comma) (hmore : ItemsText items more) :
    ItemsText (json :: items) (chars ++ (comma ++ more))

/-- How the fields of a record may be written. -/
inductive FieldsText : List (String × Json) → List Char → Prop
  | last {name : String} {json : Json} {nameChars colon chars : List Char}
    (hname : QuotedText name nameChars) (hcolon : SeparatorText ':' colon)
    (h : LiteralText json chars) : FieldsText [(name, json)] (nameChars ++ (colon ++ chars))
  | cons {name : String} {json : Json} {fields : List (String × Json)}
    {nameChars colon chars comma more : List Char} (hname : QuotedText name nameChars)
    (hcolon : SeparatorText ':' colon) (h : LiteralText json chars)
    (hcomma : SeparatorText ',' comma) (hmore : FieldsText fields more) :
    FieldsText ((name, json) :: fields) (nameChars ++ (colon ++ (chars ++ (comma ++ more))))

end

/-! ## Reading the parts -/

/-- Characters that are read as tokens of some kind, in front of anything that may stand behind a
value. -/
def ReadsAs (kind : List Token → Prop) (chars : List Char) : Prop :=
  BeginsValue chars ∧
    ∃ tokens, kind tokens ∧ ∀ rest, EndsValue rest → ReadBefore rest chars tokens

theorem SeparatorText.readBefore_comma {comma rest : List Char} (h : SeparatorText ',' comma)
    (hrest : BeginsValue rest) : ReadBefore rest comma [.comma] := by
  obtain ⟨hbefore, hbehind⟩ := h
  exact readBefore_separator hbefore hbehind hrest

theorem SeparatorText.readBefore_colon {colon : List Char} (h : SeparatorText ':' colon)
    (rest : List Char) : ReadBefore rest colon [.colon] := by
  obtain ⟨hbefore, hbehind⟩ := h
  have hcolon (rest : List Char) : ReadBefore rest [':'] [.colon] :=
    readBefore_punctuation (by decide) rfl rfl rest
  exact (readBefore_gap hbefore _).append ((hcolon _).append (readBefore_gap hbehind rest))

/-- A value may end where a comma stands. -/
theorem SeparatorText.endsValue {comma : List Char} (h : SeparatorText ',' comma)
    (rest : List Char) : EndsValue (comma ++ rest) := by
  obtain ⟨hbefore, hbehind⟩ := h
  rw [List.append_assoc, List.cons_append]
  exact endsValue_gap_append hbefore (.inl rfl) _

theorem QuotedText.beginsValue {text : String} {chars : List Char} (h : QuotedText text chars) :
    BeginsValue chars := by
  obtain @⟨quote, pieces, hquote, hpieces⟩ := h
  refine ⟨quote, _, rfl, ?_⟩
  rcases hquote with rfl | rfl <;> decide

theorem NumberText.beginsValue (text : NumberText) : BeginsValue text.chars := by
  obtain ⟨first, others, hchars, hfirst⟩ := exists_chars_eq_cons text
  refine ⟨first, others, hchars, ?_⟩
  rcases hfirst with hdigit | rfl
  · refine ⟨isBlank_of_isDigit hdigit, ?_, ?_⟩
    all_goals
      rintro rfl
      cases hdigit
  · decide

/-! ## Reading lists and records -/

/-- A bracket that begins a list or a record, and its token. -/
inductive IsOpener : Char → Token → Prop
  | list : IsOpener '[' .openList
  | record : IsOpener '\x7b' .openRecord

theorem IsOpener.readBefore {bracket : Char} {opener : Token} (h : IsOpener bracket opener)
    (rest : List Char) : ReadBefore rest [bracket] [opener] := by
  cases h with
  | list => exact readBefore_punctuation (by decide) rfl rfl rest
  | record => exact readBefore_punctuation (by decide) rfl rfl rest

theorem IsOpener.beginsValue {bracket : Char} {opener : Token} (h : IsOpener bracket opener)
    (others : List Char) : BeginsValue (bracket :: others) := by
  refine ⟨bracket, others, rfl, ?_⟩
  cases h <;> decide

section Brackets
variable {kind inner : List Token → Prop} {bracket final : Char} {opener closer : Token}
  {gap chars closing : List Char}

theorem readsAs_empty (hopener : IsOpener bracket opener) (hcloser : IsCloser final closer)
    (hgap : IsGap gap) (hkind : kind [opener, closer]) :
    ReadsAs kind (bracket :: (gap ++ [final])) := by
  refine ⟨hopener.beginsValue _, [opener, closer], hkind, fun rest _ => ?_⟩
  exact (hopener.readBefore _).append
    ((readBefore_gap hgap _).append (readBefore_closer hcloser rest))

theorem ReadsAs.enclosed (h : ReadsAs inner chars) (hopener : IsOpener bracket opener)
    (hcloser : IsCloser final closer) (hgap : IsGap gap) (hclosing : ClosingText final closing)
    (hkind : ∀ tokens, inner tokens → kind (opener :: (tokens ++ [closer]))) :
    ReadsAs kind (bracket :: (gap ++ (chars ++ closing))) := by
  obtain ⟨_, tokens, hinner, hread⟩ := h
  refine ⟨hopener.beginsValue _, _, hkind tokens hinner, fun rest _ => ?_⟩
  have hchars := hread (closing ++ rest) (endsValue_closingText hcloser hclosing rest)
  have hend := readBefore_closingText hcloser hclosing rest
  exact (hopener.readBefore _).append ((readBefore_gap hgap _).append (hchars.append hend))

end Brackets

theorem ReadsAs.lastItem {json : Json} {chars : List Char} (h : ReadsAs (Spells json) chars) :
    ReadsAs (SpellsItems [json]) chars := by
  obtain ⟨hbegins, tokens, hspells, hread⟩ := h
  exact ⟨hbegins, tokens, hspells.lastItem, hread⟩

theorem ReadsAs.consItems {json : Json} {items : List Json} {chars comma more : List Char}
    (h : ReadsAs (Spells json) chars) (hcomma : SeparatorText ',' comma)
    (hmore : ReadsAs (SpellsItems items) more) :
    ReadsAs (SpellsItems (json :: items)) (chars ++ (comma ++ more)) := by
  obtain ⟨hbegins, tokens, hspells, hread⟩ := h
  obtain ⟨hmoreBegins, others, hmoreSpells, hmoreRead⟩ := hmore
  refine ⟨hbegins.append _, _, hspells.consItems hmoreSpells, fun rest hrest => ?_⟩
  have hchars : ReadBefore (comma ++ more ++ rest) chars tokens := by
    rw [List.append_assoc]
    exact hread _ (hcomma.endsValue (more ++ rest))
  have hseparator := hcomma.readBefore_comma (hmoreBegins.append rest)
  exact hchars.append (hseparator.append (hmoreRead rest hrest))

theorem ReadsAs.lastField {name : String} {json : Json} {nameChars colon chars : List Char}
    (hname : QuotedText name nameChars) (hcolon : SeparatorText ':' colon)
    (h : ReadsAs (Spells json) chars) :
    ReadsAs (SpellsFields [(name, json)]) (nameChars ++ (colon ++ chars)) := by
  obtain ⟨_, tokens, hspells, hread⟩ := h
  refine ⟨hname.beginsValue.append _, _, hspells.lastField name, fun rest hrest => ?_⟩
  exact (readBefore_quotedText hname _).append
    ((hcolon.readBefore_colon _).append (hread rest hrest))

theorem ReadsAs.consFields {name : String} {json : Json} {fields : List (String × Json)}
    {nameChars colon chars comma more : List Char} (hname : QuotedText name nameChars)
    (hcolon : SeparatorText ':' colon) (h : ReadsAs (Spells json) chars)
    (hcomma : SeparatorText ',' comma) (hmore : ReadsAs (SpellsFields fields) more) :
    ReadsAs (SpellsFields ((name, json) :: fields))
      (nameChars ++ (colon ++ (chars ++ (comma ++ more)))) := by
  obtain ⟨_, tokens, hspells, hread⟩ := h
  obtain ⟨hmoreBegins, others, hmoreSpells, hmoreRead⟩ := hmore
  refine ⟨hname.beginsValue.append _, _, hspells.consFields name hmoreSpells,
    fun rest hrest => ?_⟩
  have hchars : ReadBefore (comma ++ more ++ rest) chars tokens := by
    rw [List.append_assoc]
    exact hread _ (hcomma.endsValue (more ++ rest))
  have hseparator := hcomma.readBefore_comma (hmoreBegins.append rest)
  exact (readBefore_quotedText hname _).append ((hcolon.readBefore_colon _).append
    (hchars.append (hseparator.append (hmoreRead rest hrest))))

mutual

/-- **Every way of writing a value** is read as tokens that spell it. -/
theorem LiteralText.readsAs {json : Json} {chars : List Char} (h : LiteralText json chars) :
    ReadsAs (Spells json) chars := by
  cases h with
  | null h =>
    refine ⟨?_, _, spells_null, fun rest hrest => readBefore_null hrest h⟩
    rcases h with rfl | rfl
    · exact ⟨'n', _, rfl, by decide⟩
    · exact ⟨'N', _, rfl, by decide⟩
  | @bool b _ h =>
    refine ⟨?_, _, spells_bool b, fun rest hrest => readBefore_bool hrest h⟩
    cases b with
    | true =>
      rcases h with rfl | rfl
      · exact ⟨'t', _, rfl, by decide⟩
      · exact ⟨'T', _, rfl, by decide⟩
    | false =>
      rcases h with rfl | rfl
      · exact ⟨'f', _, rfl, by decide⟩
      · exact ⟨'F', _, rfl, by decide⟩
  | @number text h =>
    exact ⟨text.beginsValue, _, spells_number text.value, fun _ => readBefore_number h⟩
  | @text text _ h =>
    exact ⟨h.beginsValue, _, spells_text text, fun rest _ => readBefore_quotedText h rest⟩
  | emptyList hgap => exact readsAs_empty .list .list hgap spells_list_nil
  | list hgap h hclosing =>
    exact h.readsAs.enclosed .list .list hgap hclosing fun _ hitems => hitems.list
  | emptyRecord hgap => exact readsAs_empty .record .record hgap spells_record_nil
  | record hgap hnames h hclosing =>
    exact h.readsAs.enclosed .record .record hgap hclosing fun _ hfields => hfields.record hnames

theorem ItemsText.readsAs {items : List Json} {chars : List Char} (h : ItemsText items chars) :
    ReadsAs (SpellsItems items) chars := by
  cases h with
  | last h => exact h.readsAs.lastItem
  | cons h hcomma hmore => exact h.readsAs.consItems hcomma hmore.readsAs

theorem FieldsText.readsAs {fields : List (String × Json)} {chars : List Char}
    (h : FieldsText fields chars) : ReadsAs (SpellsFields fields) chars := by
  cases h with
  | last hname hcolon h => exact .lastField hname hcolon h.readsAs
  | cons hname hcolon h hcomma hmore =>
    exact .consFields hname hcolon h.readsAs hcomma hmore.readsAs

end

/-! ## Reading whole texts -/

/-- A text that holds nothing but the tokens of a value is read as that value. -/
theorem ReadBefore.ofEitherText?_eq {json : Json} {chars : List Char} {tokens : List Token}
    (h : ReadBefore [] chars tokens) (hspells : Spells json tokens) :
    Json.ofEitherText? (String.ofList chars) = some json := by
  have hread {lexer : Lexer} {found : List Token} (hfound : lexer.tokens (chars ++ []) =
      (lexer.tokens []).map (found ++ ·)) :
      Json.read? lexer (String.ofList chars) = Json.value? [] found := by
    rw [List.append_nil, Lexer.tokens_nil, Option.map_some, List.append_nil] at hfound
    rw [Json.read?, String.toList_ofList, hfound, Option.bind_some]
  have hloose : Json.ofLooseText? (String.ofList chars) = some json :=
    (hread h.loose).trans hspells.value?_eq
  -- a strict reading with a comma in front of a bracket has no value
  have hstrict : Json.ofText? (String.ofList chars) = none ∨
      Json.ofText? (String.ofList chars) = some json := by
    rcases h.strict with hnone | ⟨found, hfound, rfl | hcomma⟩
    · left
      rw [List.append_nil] at hnone
      rw [Json.ofText?, Json.read?, String.toList_ofList, hnone, Option.bind_none]
    · exact .inr ((hread hfound).trans hspells.value?_eq)
    · exact .inl ((hread hfound).trans (value?_eq_none_of_hasTrailingComma hcomma []))
  unfold Json.ofEitherText?
  rcases hstrict with hnone | hsome
  · rw [hnone, hloose]
    rfl
  · rw [hsome]
    rfl

/-- **Every text that a value may be written as is read as that value.** -/
theorem ofEitherText?_literalText {json : Json} {before chars behind : List Char}
    (h : LiteralText json chars) (hbefore : IsGap before) (hbehind : IsGap behind) :
    Json.ofEitherText? (String.ofList (before ++ (chars ++ behind))) = some json := by
  obtain ⟨_, tokens, hspells, hread⟩ := h.readsAs
  have hends : EndsValue (behind ++ []) := by
    intro c hc
    rw [List.append_nil] at hc
    exact .inl (hbehind c (List.mem_of_mem_head? hc))
  have hchars := (hread _ hends).append (readBefore_gap hbehind [])
  rw [List.append_nil] at hchars
  exact ((readBefore_gap hbefore _).append hchars).ofEitherText?_eq hspells

/-- Quotes of both kinds, brackets in a text, a word of the loose spelling, and a comma that a blank
other than the four gaps separates from its bracket. -/
theorem ofEitherText?_literalText_mixed :
    Json.ofEitherText? "\x7b'\\'' : [None,\u00a0], \"],\":-1e0\x7d " =
      some (.record [("'", .list [.null]), ("],", .number (.ofDecimal true ⟨1, 0⟩))]) := by
  have hgap : IsGap [] := nofun
  have hspace : IsGap [' '] := by
    rintro c ⟨⟩
    · rfl
    · contradiction
  have hnumber : LiteralText (.number (.ofDecimal true ⟨1, 0⟩)) ['-', '1', 'e', '0'] := by
    let power : PowerText := ⟨false, none, ['0'], by simp, List.all_eq_true.mp rfl⟩
    let number : NumberText :=
      ⟨true, ['1'], [], some power, by simp, List.all_eq_true.mp rfl, nofun⟩
    have hvalue : number.value = .ofDecimal true ⟨1, 0⟩ := by decide +kernel
    rw [← hvalue]
    exact .number (.inl rfl)
  have hquote : List.Forall₂ (CharText '\'') ['\''] [['\\', '\'']] :=
    .cons (.escaped (.inr (.inr rfl))) .nil
  have hbrackets : List.Forall₂ (CharText '"') [']', ','] [[']'], [',']] :=
    .cons (.raw (by decide) (by decide)) (.cons (.raw (by decide) (by decide)) .nil)
  have hlist : LiteralText (.list [.null]) ('[' :: ([] ++ ("None".toList ++
      ([] ++ ',' :: (['\u00a0'] ++ [']']))))) :=
    .list hgap (.last (.null (.inr rfl))) (.comma hgap (List.all_eq_true.mp rfl))
  have hfields : FieldsText [("'", .list [.null]), ("],", .number (.ofDecimal true ⟨1, 0⟩))] _ :=
    .cons (.quoted (.inr rfl) hquote) (.between hspace hspace) hlist (.between hgap hspace)
      (.last (.quoted (.inl rfl) hbrackets) (.between hgap hgap) hnumber)
  have hrecord := LiteralText.record hgap (by decide) hfields (.plain hgap)
  have hread := ofEitherText?_literalText hrecord hgap hspace
  rw [← hread]
  apply congrArg
  decide

end Toolpath
