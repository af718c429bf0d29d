import Toolpath.Json.Printer
import Toolpath.Proofs.ReadBack
import Toolpath.Proofs.StrictTexts
import Toolpath.Proofs.TokenValues

/-! # JSON read back

What is printed is read by the strict spelling as the value that was printed, on one line or over
several (`Json.ofText?_toChars`).  The sign of a zero and a number that is not finite are not
written down, so they do not come back (`Json.readBack`).  Of two fields with one name in a record
the reader keeps one, so no record may have two (`Json.NamesDiffer`).
-/
namespace Toolpath

/-! ## What comes back -/

/-- A number without the sign of zero. -/
def Double.unsignedZero (x : Double) : Double := if x.isZero then zero false else x

mutual

/-- A value as it is read after it was printed: no zero has a sign, and what JSON cannot write as a
number is null. -/
def Json.readBack : Json → Json
  | .null => .null
  | .bool b => .bool b
  | .number x => if x.isFinite then .number x.unsignedZero else .null
  | .text s => .text s
  | .list items => .list (readBackItems items)
  | .record fields => .record (readBackFields fields)

def Json.readBackItems : List Json → List Json
  | [] => []
  | item :: items => item.readBack :: readBackItems items

def Json.readBackFields : List (String × Json) → List (String × Json)
  | [] => []
  | (name, value) :: fields => (name, value.readBack) :: readBackFields fields

end

/-- In no record of a value, however deep, does a name stand twice. -/
inductive Json.NamesDiffer : Json → Prop
  | null : NamesDiffer .null
  | bool (b : Bool) : NamesDiffer (.bool b)
  | number (x : Double) : NamesDiffer (.number x)
  | text (s : String) : NamesDiffer (.text s)
  | list {items : List Json} (h : ∀ item ∈ items, NamesDiffer item) : NamesDiffer (.list items)
  | record {fields : List (String × Json)} (hnames : (fields.map Prod.fst).Nodup)
    (h : ∀ field ∈ fields, NamesDiffer field.2) : NamesDiffer (.record fields)

theorem Json.readBackItems_eq_map (items : List Json) :
    readBackItems items = items.map readBack := by
  induction items with
  | nil => rfl
  | cons item items ih => rw [readBackItems, List.map_cons, ih]

theorem Json.readBackFields_eq_map (fields : List (String × Json)) :
    readBackFields fields = fields.map fun field => (field.1, field.2.readBack) := by
  induction fields with
  | nil => rfl
  | cons field fields ih => rw [readBackFields, List.map_cons, ih]

theorem Json.map_fst_readBackFields (fields : List (String × Json)) :
    (readBackFields fields).map Prod.fst = fields.map Prod.fst := by
  rw [readBackFields_eq_map, List.map_map]
  rfl

/-! ## Tokens in front of a text -/

/-- Characters that the strict spelling reads as some tokens where they stand in front of a text. -/
def StrictReads (rest chars : List Char) (tokens : List Token) : Prop :=
  Strict.lexer.tokens (chars ++ rest) = (Strict.lexer.tokens rest).map (tokens ++ ·)

namespace StrictReads
variable {rest front chars : List Char} {tokens more : List Token}

theorem nil (rest : List Char) : StrictReads rest [] [] := Option.map_id'.symm

theorem append (hfront : StrictReads (chars ++ rest) front tokens)
    (hchars : StrictReads rest chars more) :
    StrictReads rest (front ++ chars) (tokens ++ more) := by
  unfold StrictReads at *
  rw [List.append_assoc, hfront, hchars, Option.map_map]
  simp only [Function.comp_def, List.append_assoc]

theorem of_piece {token loose : Option Token} (h : StrictPiece rest token loose chars) :
    StrictReads rest chars token.toList := by
  have hstep : Strict.lexer.step (chars ++ rest) = some (token, rest) := h.strict_step
  exact Lexer.tokens_of_step hstep

theorem gap {gap : List Char} (h : IsGap gap) (rest : List Char) : StrictReads rest gap [] := by
  induction gap with
  | nil => exact .nil rest
  | cons c gap ih =>
    have hfirst : StrictReads (gap ++ rest) [c] [] := .of_piece (.gap (h c List.mem_cons_self))
    exact hfirst.append (ih fun d hd => h d (List.mem_cons_of_mem c hd))

theorem punctuation {c : Char} {token : Token} (h : Token.ofPunctuation? c = some token)
    (rest : List Char) : StrictReads rest [c] [token] :=
  .of_piece (.punctuation h)

end StrictReads

/-! ## Texts and numbers -/

theorem wholeInBase?_unicodeEscape : ∀ n < 0x20,
    wholeInBase? 16 ['0', '0', Nat.digitChar (n / 16), Nat.digitChar (n % 16)] = some n := by
  decide

/-- One character as it is printed between quotes stands for itself. -/
theorem StrictBody.escape (c : Char) {chars : List Char} {units : List Nat} {loose : List Char}
    (h : StrictBody chars units loose) :
    ∃ looses, StrictBody (Json.escape c ++ chars) (c.toNat :: units) looses := by
  unfold Json.escape
  split
  · exact ⟨_, .escaped (d := '"') rfl h⟩
  · exact ⟨_, .escaped (d := '\\') rfl h⟩
  · exact ⟨_, .escaped (d := '\x08') rfl h⟩
  · exact ⟨_, .escaped (d := '\x0c') rfl h⟩
  · exact ⟨_, .escaped (d := '\n') rfl h⟩
  · exact ⟨_, .escaped (d := '\r') rfl h⟩
  · exact ⟨_, .escaped (d := '\t') rfl h⟩
  · rename_i hquote hbackslash _ _ _ _ _
    split
    · rename_i hlow
      exact ⟨_, .unit (wholeInBase?_unicodeEscape c.toNat hlow) h⟩
    · rename_i hhigh
      exact ⟨_, .raw ⟨hhigh, hquote, hbackslash⟩ h⟩

theorem exists_strictBody_escape (text : List Char) :
    ∃ loose, StrictBody (text.flatMap Json.escape) (text.map Char.toNat) loose := by
  induction text with
  | nil => exact ⟨[], .nil⟩
  | cons c text ih =>
    obtain ⟨loose, hbody⟩ := ih
    exact hbody.escape c

/-- **A quoted text** is read as the text. -/
theorem strictReads_quote (text : String) (rest : List Char) :
    StrictReads rest (Json.quote text) [.text text] := by
  obtain ⟨loose, hbody⟩ := exists_strictBody_escape text.toList
  have hpiece : StrictPiece rest _ _ (Json.quote text) := .text hbody
  rw [joinUnits_map_toNat, String.ofList_toList] at hpiece
  exact .of_piece hpiece

/-- A word that means something is read up to its end. -/
theorem strictReads_word {c : Char} {word rest : List Char} {token : Token}
    (hc : Token.isWordStart c = true) (hword : (c :: word).all Token.isWordChar = true)
    (hmeaning : Strict.meaning (c :: word) = some token) (hrest : EndsValue rest) :
    StrictReads rest (c :: word) [token] :=
  .of_piece (.word hc (List.all_eq_true.mp hword) hmeaning hrest.isWordChar_eq_false)

theorem strictReads_null {rest : List Char} (hrest : EndsValue rest) :
    StrictReads rest "null".toList [.null] :=
  strictReads_word (c := 'n') rfl rfl rfl hrest

namespace Double

theorem unsignedZero_finite {negative : Bool} {size : Magnitude} (h : size.units ≠ 0) :
    (finite negative size).unsignedZero = finite negative size := by
  rw [unsignedZero, if_neg fun hzero => h (isZero_finite.mp hzero)]

theorem unsignedZero_zero (negative : Bool) : (zero negative).unsignedZero = zero false := rfl

theorem isFinite_unsignedZero {x : Double} (h : x.isFinite = true) :
    x.unsignedZero.isFinite = true := by
  unfold unsignedZero
  split
  · rfl
  · exact h

/-- The shortest text of a finite double is a number text that JSON allows, and its value is the
double without the sign of zero. -/
theorem exists_numberText_unsignedZero {x : Double} (h : x.isFinite = true) :
    ∃ text : NumberText, text.chars = x.shortestChars ∧ text.value = x.unsignedZero ∧
      text.NoLeadingZero := by
  cases x with
  | nan => cases h
  | infinite negative => cases h
  | finite negative size =>
    by_cases hzero : size.units = 0
    · have heq : finite negative size = zero negative :=
        congrArg (finite negative) (Magnitude.ext hzero)
      rw [heq, unsignedZero_zero, shortestChars_zero, ← shortestChars_zero false]
      exact exists_numberText_shortestChars fun _ => rfl
    · rw [unsignedZero_finite hzero]
      exact exists_numberText_shortestChars fun h => absurd h hzero

end Double

/-! ## Values -/

/-- Characters that the strict spelling reads as tokens of some kind, in front of anything that may
stand behind a value. -/
def PrintedAs (kind : List Token → Prop) (chars : List Char) : Prop :=
  ∃ tokens, kind tokens ∧ ∀ rest, EndsValue rest → StrictReads rest chars tokens

theorem printedAs_numeral (x : Double) :
    PrintedAs (Spells (Json.number x).readBack) (Json.numeral x) := by
  rw [Json.readBack, Json.numeral]
  cases h : x.isFinite with
  | false =>
    rw [if_neg Bool.false_ne_true, if_neg Bool.false_ne_true]
    exact ⟨_, spells_null, fun rest hrest => strictReads_null hrest⟩
  | true =>
    obtain ⟨text, hchars, hvalue, hlead⟩ := Double.exists_numberText_unsignedZero h
    rw [if_pos rfl, if_pos rfl, ← hchars, ← hvalue]
    exact ⟨_, spells_number text.value,
      fun rest hrest => .of_piece (.number hlead hrest.endsNumeral)⟩

theorem printedAs_bool (indentation : Json.Indentation) (b : Bool) :
    PrintedAs (Spells (.bool b)) (Json.toChars indentation (.bool b)) := by
  refine ⟨_, spells_bool b, fun rest hrest => ?_⟩
  cases b with
  | true => exact strictReads_word (c := 't') rfl rfl rfl hrest
  | false => exact strictReads_word (c := 'f') rfl rfl rfl hrest

theorem Json.Indentation.isGap_newline (indentation : Indentation) : IsGap indentation.newline := by
  intro c hc
  cases indentation with
  | none => cases hc
  | some depth =>
    rw [newline, List.mem_cons] at hc
    rcases hc with rfl | hc
    · rfl
    · rw [List.eq_of_mem_replicate hc]
      rfl

theorem Json.Indentation.strictReads_colon (indentation : Indentation) (rest : List Char) :
    StrictReads rest indentation.colon [.colon] := by
  have hcolon (rest : List Char) : StrictReads rest [':'] [.colon] := .punctuation rfl rest
  cases indentation with
  | none => exact hcolon rest
  | some depth =>
    have hspace : IsGap [' '] := by
      rintro c (_ | ⟨_, _, _⟩)
      rfl
    exact (hcolon _).append (.gap hspace rest)

/-- A value may end where the other items of a list stand, or where they would. -/
theorem Json.endsValue_moreItems (indentation : Indentation) (items : List Json)
    {rest : List Char} (hrest : EndsValue rest) :
    EndsValue (moreItems indentation items ++ rest) := by
  cases items with
  | nil => exact hrest
  | cons item items =>
    intro c hc
    cases hc
    exact .inr (.inl rfl)

theorem Json.endsValue_moreFields (indentation : Indentation) (fields : List (String × Json))
    {rest : List Char} (hrest : EndsValue rest) :
    EndsValue (moreFields indentation fields ++ rest) := by
  cases fields with
  | nil => exact hrest
  | cons field fields =>
    intro c hc
    cases hc
    exact .inr (.inl rfl)

/-- What stands between two brackets, on lines of its own if there are lines. -/
theorem strictReads_enclosed (bracket : Char) {final : Char} {opener closer : Token}
    (hopener : Token.ofPunctuation? bracket = some opener) (hcloser : IsCloser final closer)
    (indentation : Json.Indentation) {chars : List Char} {tokens : List Token}
    (h : ∀ rest, EndsValue rest → StrictReads rest chars tokens) (rest : List Char) :
    StrictReads rest
      (bracket :: (indentation.deeper.newline ++ (chars ++ (indentation.newline ++ [final]))))
      (opener :: (tokens ++ [closer])) := by
  have hfinal : final = ',' ∨ final = ']' ∨ final = '\x7d' := by
    cases hcloser with
    | list => exact .inr (.inl rfl)
    | record => exact .inr (.inr rfl)
  have hpunctuation : Token.ofPunctuation? final = some closer := by cases hcloser <;> rfl
  have hend : StrictReads rest (indentation.newline ++ [final]) [closer] :=
    (StrictReads.gap indentation.isGap_newline _).append (.punctuation hpunctuation rest)
  have hends : EndsValue (indentation.newline ++ [final] ++ rest) := by
    rw [List.append_assoc]
    exact endsValue_gap_append indentation.isGap_newline hfinal rest
  exact (StrictReads.punctuation hopener _).append
    ((StrictReads.gap indentation.deeper.isGap_newline _).append ((h _ hends).append hend))

/-- A field of a record as it is printed. -/
theorem strictReads_field (indentation : Json.Indentation) (name : String) {chars : List Char}
    {tokens : List Token} {rest : List Char} (h : StrictReads rest chars tokens) :
    StrictReads rest (Json.quote name ++ (indentation.colon ++ chars))
      (.text name :: .colon :: tokens) :=
  (strictReads_quote name _).append ((indentation.strictReads_colon _).append h)

/-- A comma and the line after it. -/
theorem strictReads_comma (indentation : Json.Indentation) {chars : List Char}
    {tokens : List Token} {rest : List Char} (h : StrictReads rest chars tokens) :
    StrictReads rest (',' :: (indentation.newline ++ chars)) (.comma :: tokens) :=
  (StrictReads.punctuation (c := ',') rfl _).append
    ((StrictReads.gap indentation.isGap_newline _).append h)

mutual

/-- **A value as it is printed** is read as tokens that spell it. -/
theorem Json.printedAs (indentation : Indentation) (json : Json) (h : json.NamesDiffer) :
    PrintedAs (Spells json.readBack) (toChars indentation json) := by
  cases json with
  | null => exact ⟨_, spells_null, fun rest hrest => strictReads_null hrest⟩
  | bool b => exact printedAs_bool indentation b
  | number x => exact printedAs_numeral x
  | text s => exact ⟨_, spells_text s, fun rest _ => strictReads_quote s rest⟩
  | list items =>
    have hitems : ∀ item ∈ items, item.NamesDiffer := by
      cases h with
      | list hitems => exact hitems
    cases items with
    | nil =>
      refine ⟨_, spells_list_nil, fun rest _ => ?_⟩
      exact (StrictReads.punctuation (c := '[') rfl _).append (.punctuation (c := ']') rfl rest)
    | cons item items =>
      obtain ⟨tokens, hspells, hread⟩ :=
        printedAs indentation.deeper item (hitems item List.mem_cons_self)
      obtain ⟨more, hmore, hreadMore⟩ := printedAs_moreItems indentation.deeper items
        (fun other hother => hitems other (List.mem_cons_of_mem _ hother)) hspells
      refine ⟨_, hmore.list, fun rest _ => ?_⟩
      -- the first item may end in front of the others, and the last of them in front of the bracket
      have hinner (rest : List Char) (hrest : EndsValue rest) :=
        (hread _ (endsValue_moreItems indentation.deeper items hrest)).append (hreadMore rest hrest)
      have htext := strictReads_enclosed '[' rfl .list indentation hinner rest
      simpa only [toChars, List.cons_append, List.append_assoc] using htext
  | record fields =>
    obtain ⟨hnames, hfields⟩ : (fields.map Prod.fst).Nodup ∧
        ∀ field ∈ fields, field.2.NamesDiffer := by
      cases h with
      | record hnames hfields => exact ⟨hnames, hfields⟩
    cases fields with
    | nil =>
      refine ⟨_, spells_record_nil, fun rest _ => ?_⟩
      exact (StrictReads.punctuation (c := '\x7b') rfl _).append
        (.punctuation (c := '\x7d') rfl rest)
    | cons field fields =>
      obtain ⟨name, value⟩ := field
      obtain ⟨tokens, hspells, hread⟩ :=
        printedAs indentation.deeper value (hfields _ List.mem_cons_self)
      obtain ⟨more, hmore, hreadMore⟩ := printedAs_moreFields indentation.deeper fields
        (fun other hother => hfields other (List.mem_cons_of_mem _ hother)) name hspells
      have hdistinct : (((name, value.readBack) :: readBackFields fields).map Prod.fst).Nodup := by
        rw [List.map_cons, map_fst_readBackFields]
        exact hnames
      refine ⟨_, hmore.record hdistinct, fun rest _ => ?_⟩
      have hinner (rest : List Char) (hrest : EndsValue rest) :=
        strictReads_field indentation.deeper name ((hread _
          (endsValue_moreFields indentation.deeper fields hrest)).append (hreadMore rest hrest))
      have htext := strictReads_enclosed '\x7b' rfl .record indentation hinner rest
      have hcolon : indentation.deeper.colon = indentation.colon := by cases indentation <;> rfl
      simpa only [toChars, hcolon, List.cons_append, List.append_assoc] using htext

/-- The other items of a list are read behind the tokens of the first. -/
theorem Json.printedAs_moreItems (indentation : Indentation) (items : List Json)
    (h : ∀ item ∈ items, item.NamesDiffer) {json : Json} {tokens : List Token}
    (hjson : Spells json tokens) :
    ∃ more, SpellsItems (json :: readBackItems items) (tokens ++ more) ∧
      ∀ rest, EndsValue rest → StrictReads rest (moreItems indentation items) more := by
  cases items with
  | nil =>
    refine ⟨[], ?_, fun rest _ => .nil rest⟩
    rw [List.append_nil]
    exact hjson.lastItem
  | cons item items =>
    obtain ⟨next, hnext, hread⟩ := printedAs indentation item (h item List.mem_cons_self)
    obtain ⟨more, hmore, hreadMore⟩ := printedAs_moreItems indentation items
      (fun other hother => h other (List.mem_cons_of_mem _ hother)) hnext
    refine ⟨.comma :: (next ++ more), hjson.consItems hmore, fun rest hrest => ?_⟩
    have hitems := (hread _ (endsValue_moreItems indentation items hrest)).append
      (hreadMore rest hrest)
    have htext := strictReads_comma indentation hitems
    simpa only [moreItems, List.cons_append, List.append_assoc] using htext

/-- The other fields of a record are read behind the tokens of the first. -/
theorem Json.printedAs_moreFields (indentation : Indentation) (fields : List (String × Json))
    (h : ∀ field ∈ fields, field.2.NamesDiffer) (name : String) {json : Json}
    {tokens : List Token} (hjson : Spells json tokens) :
    ∃ more, SpellsFields ((name, json) :: readBackFields fields)
        (.text name :: .colon :: (tokens ++ more)) ∧
      ∀ rest, EndsValue rest → StrictReads rest (moreFields indentation fields) more := by
  cases fields with
  | nil =>
    refine ⟨[], ?_, fun rest _ => .nil rest⟩
    rw [List.append_nil]
    exact hjson.lastField name
  | cons field fields =>
    obtain ⟨next, value⟩ := field
    obtain ⟨spelled, hspelled, hread⟩ := printedAs indentation value (h _ List.mem_cons_self)
    obtain ⟨more, hmore, hreadMore⟩ := printedAs_moreFields indentation fields
      (fun other hother => h other (List.mem_cons_of_mem _ hother)) next hspelled
    refine ⟨.comma :: .text next :: .colon :: (spelled ++ more),
      hjson.consFields name hmore, fun rest hrest => ?_⟩
    have hfields := (hread _ (endsValue_moreFields indentation fields hrest)).append
      (hreadMore rest hrest)
    have htext := strictReads_comma indentation (strictReads_field indentation next hfields)
    simpa only [moreFields, List.cons_append, List.append_assoc] using htext

end

/-! ## Whole texts -/

/-- **What is printed is read back**, whether on one line or over several. -/
theorem Json.ofText?_toChars (indentation : Indentation) {json : Json} (h : json.NamesDiffer) :
    ofText? (String.ofList (json.toChars indentation)) = some json.readBack := by
  obtain ⟨tokens, hspells, hread⟩ := printedAs indentation json h
  have htokens := hread [] fun _ h => by cases h
  rw [StrictReads, List.append_nil, Lexer.tokens_nil, Option.map_some, List.append_nil] at htokens
  rw [ofText?, read?, String.toList_ofList, htokens, Option.bind_some, hspells.value?_eq]

/-- What is printed on one line is read back, by the reader of either spelling. -/
theorem Json.ofEitherText?_toText {json : Json} (h : json.NamesDiffer) :
    ofEitherText? json.toText = some json.readBack := by
  rw [ofEitherText?, toText, ofText?_toChars none h]
  rfl

end Toolpath
