import Toolpath.Proofs.LiteralTokens
import Toolpath.Json.Reader

/-! # Values of tokens

The reader takes the tokens of a value, wherever a value is due, for that value and goes on behind
them (`Spells`).  Lists and records are spelt by what spells their parts.  A comma in front of a
closing bracket makes the reader fail (`value?_eq_none_of_hasTrailingComma`).
-/
namespace Toolpath

/-! ## Commas in front of brackets -/

theorem HasTrailingComma.of_cons {first : Token} {rest : List Token}
    (h : HasTrailingComma (first :: rest)) (hne : first ≠ .comma) : HasTrailingComma rest := by
  cases h with
  | here => exact absurd rfl hne
  | later _ h => exact h

/-- A closing bracket is no value. -/
theorem value?_closer {bracket : Char} {closer : Token} (h : IsCloser bracket closer)
    (around : List Json.Unfinished) (rest : List Token) :
    Json.value? around (closer :: rest) = none := by
  cases h with
  | list => rw [Json.value?] <;> simp
  | record => rw [Json.value?] <;> simp

/-- Neither where a value is due nor where one has just ended does the reader get past a comma in
front of a closing bracket. -/
theorem value?_and_resume?_eq_none :
    (∀ around tokens, HasTrailingComma tokens → Json.value? around tokens = none) ∧
      ∀ around value tokens, HasTrailingComma tokens →
        Json.resume? around value tokens = none := by
  apply Json.value?.mutual_induct
  case case1 =>
    intro around rest ih h
    rw [Json.value?, ih (h.of_cons nofun)]
  case case2 =>
    intro around b rest ih h
    rw [Json.value?, ih (h.of_cons nofun)]
  case case3 =>
    intro around x rest ih h
    rw [Json.value?, ih (h.of_cons nofun)]
  case case4 =>
    intro around s rest ih h
    rw [Json.value?, ih (h.of_cons nofun)]
  case case5 =>
    intro around rest ih h
    rw [Json.value?, ih ((h.of_cons nofun).of_cons nofun)]
  case case6 =>
    intro around rest hopens ih h
    rw [Json.value?, ih (h.of_cons nofun)]
    exact hopens
  case case7 =>
    intro around rest ih h
    rw [Json.value?, ih ((h.of_cons nofun).of_cons nofun)]
  case case8 =>
    intro around name rest ih h
    rw [Json.value?, ih (((h.of_cons nofun).of_cons nofun).of_cons nofun)]
  case case9 =>
    intro tokens around _ _ _ _ _ _ _ _ _
    rw [Json.value?] <;> assumption
  case case10 =>
    intro value h
    cases h
  -- behind an item the comma may be the one in question: then the bracket is where a value is due
  case case11 =>
    intro value items around rest ih h
    cases h with
    | here hcloser rest => rw [Json.resume?, value?_closer hcloser]
    | later _ h => rw [Json.resume?, ih h]
  case case12 =>
    intro value items around rest ih h
    rw [Json.resume?, ih (h.of_cons nofun)]
  -- behind a field a name has to follow the comma, so it is not the one in question
  case case13 =>
    intro value fields name around next rest ih h
    cases h with
    | here hcloser => cases hcloser
    | later _ h => rw [Json.resume?, ih ((h.of_cons nofun).of_cons nofun)]
  case case14 =>
    intro value fields name around rest ih h
    rw [Json.resume?, ih (h.of_cons nofun)]
  case case15 =>
    intro tokens around value _ _ _ _ _ _
    rw [Json.resume?] <;> assumption

/-- **No value has a trailing comma.** -/
theorem value?_eq_none_of_hasTrailingComma {tokens : List Token} (h : HasTrailingComma tokens)
    (around : List Json.Unfinished) : Json.value? around tokens = none :=
  value?_and_resume?_eq_none.1 around tokens h

/-! ## Values -/

/-- Tokens that the reader takes for a value wherever one is due. -/
structure Spells (json : Json) (tokens : List Token) : Prop where
  opens : ∀ rest more, tokens ++ more ≠ .closeList :: rest
  value?_append : ∀ around rest,
    Json.value? around (tokens ++ rest) = Json.resume? around json rest

/-- Tokens that the reader takes for the last items of a list wherever an item is due. -/
structure SpellsItems (items : List Json) (tokens : List Token) : Prop where
  opens : ∀ rest more, tokens ++ more ≠ .closeList :: rest
  value?_append : ∀ done around rest,
    Json.value? (.list done :: around) (tokens ++ .closeList :: rest) =
      Json.resume? around (.list (done.reverse ++ items)) rest

/-- A name, a colon, and tokens that the reader takes for the last fields of a record wherever the
value of the field of that name is due. -/
inductive SpellsFields (fields : List (String × Json)) : List Token → Prop
  | intro {name : String} {tokens : List Token}
    (h : ∀ done around rest, ((done ++ fields).map Prod.fst).Nodup →
      Json.value? (.record done name :: around) (tokens ++ .closeRecord :: rest) =
        Json.resume? around (.record (done ++ fields)) rest) :
    SpellsFields fields (.text name :: .colon :: tokens)

theorem spells_null : Spells .null [.null] := by
  refine ⟨nofun, fun around rest => ?_⟩
  rw [List.singleton_append, Json.value?]

theorem spells_bool (b : Bool) : Spells (.bool b) [.bool b] := by
  refine ⟨nofun, fun around rest => ?_⟩
  rw [List.singleton_append, Json.value?]

theorem spells_number (x : Double) : Spells (.number x) [.number x] := by
  refine ⟨nofun, fun around rest => ?_⟩
  rw [List.singleton_append, Json.value?]

theorem spells_text (s : String) : Spells (.text s) [.text s] := by
  refine ⟨nofun, fun around rest => ?_⟩
  rw [List.singleton_append, Json.value?]

/-! ## Lists -/

theorem spells_list_nil : Spells (.list []) [.openList, .closeList] := by
  refine ⟨nofun, fun around rest => ?_⟩
  rw [List.cons_append, List.singleton_append, Json.value?]

/-- The last item of a list. -/
theorem Spells.lastItem {json : Json} {tokens : List Token} (h : Spells json tokens) :
    SpellsItems [json] tokens := by
  refine ⟨h.opens, fun done around rest => ?_⟩
  rw [h.value?_append, Json.resume?, List.reverse_cons]

/-- An item with others behind it. -/
theorem Spells.consItems {json : Json} {tokens more : List Token} {items : List Json}
    (h : Spells json tokens) (hitems : SpellsItems items more) :
    SpellsItems (json :: items) (tokens ++ .comma :: more) := by
  refine ⟨fun rest behind => ?_, fun done around rest => ?_⟩
  · rw [List.append_assoc]
    exact h.opens rest _
  · rw [List.append_assoc, List.cons_append, h.value?_append, Json.resume?, hitems.value?_append,
      List.reverse_cons, List.append_assoc, List.singleton_append]

theorem SpellsItems.list {items : List Json} {tokens : List Token} (h : SpellsItems items tokens) :
    Spells (.list items) (.openList :: (tokens ++ [.closeList])) := by
  refine ⟨nofun, fun around rest => ?_⟩
  rw [List.cons_append, List.append_assoc, List.singleton_append, Json.value?, h.value?_append]
  · rfl
  · intro others
    exact h.opens others _

/-! ## Records -/

theorem spells_record_nil : Spells (.record []) [.openRecord, .closeRecord] := by
  refine ⟨nofun, fun around rest => ?_⟩
  rw [List.cons_append, List.singleton_append, Json.value?]

/-- A name that is to come is not there yet. -/
theorem notMem_of_nodup {done fields : List (String × Json)} {name : String} {json : Json}
    (h : ((done ++ (name, json) :: fields).map Prod.fst).Nodup) : name ∉ done.map Prod.fst := by
  rw [List.map_append, List.nodup_append] at h
  intro hmem
  exact h.2.2 name hmem name (by simp) rfl

/-- The last field of a record. -/
theorem Spells.lastField {json : Json} {tokens : List Token} (h : Spells json tokens)
    (name : String) : SpellsFields [(name, json)] (.text name :: .colon :: tokens) := by
  refine ⟨fun done around rest hnodup => ?_⟩
  rw [h.value?_append, Json.resume?, Json.put_of_notMem (notMem_of_nodup hnodup)]

/-- A field with others behind it. -/
theorem Spells.consFields {json : Json} {tokens more : List Token}
    {fields : List (String × Json)} (h : Spells json tokens) (name : String)
    (hfields : SpellsFields fields more) :
    SpellsFields ((name, json) :: fields) (.text name :: .colon :: (tokens ++ .comma :: more)) := by
  obtain ⟨hmore⟩ := hfields
  refine ⟨fun done around rest hnodup => ?_⟩
  rw [List.append_assoc, List.cons_append, h.value?_append]
  simp only [List.cons_append]
  rw [Json.resume?, Json.put_of_notMem (notMem_of_nodup hnodup), hmore, List.append_assoc,
    List.singleton_append]
  rw [List.append_assoc, List.singleton_append]
  exact hnodup

theorem SpellsFields.record {fields : List (String × Json)} {tokens : List Token}
    (h : SpellsFields fields tokens) (hnodup : (fields.map Prod.fst).Nodup) :
    Spells (.record fields) (.openRecord :: (tokens ++ [.closeRecord])) := by
  obtain ⟨htokens⟩ := h
  refine ⟨nofun, fun around rest => ?_⟩
  simp only [List.cons_append, List.append_assoc, List.nil_append]
  rw [Json.value?, htokens [] around rest hnodup, List.nil_append]

/-- Tokens that spell a value and nothing else are read as that value. -/
theorem Spells.value?_eq {json : Json} {tokens : List Token} (h : Spells json tokens) :
    Json.value? [] tokens = some json := by
  have hend := h.value?_append [] []
  rw [List.append_nil] at hend
  rw [hend, Json.resume?]

end Toolpath
