import Toolpath.Decimal.Shortest
import Toolpath.Json.Basic

/-! # Loose values

What a caller may hand over where geometry or a machine profile is asked for: any tree of numbers,
texts, lists and records, with parts that are missing, whole numbers that are no doubles, and curves
that are turned into points on demand.  Nothing is assumed of such a value.  It can be looked into
(`Value.field`), and it can be shown in a message (`Value.shown?`), unless it holds a record with a
field named `toString`, which has no text.
-/
namespace Toolpath

/-- A value of which nothing is known yet. -/
inductive Value
  | absent
  | null
  | bool (value : Bool)
  | number (value : Double)
  | integer (value : Int)
  | text (value : String)
  | list (items : List Value)
  | record (fields : List (String × Value))
  /-- A curve with the value its conversion to points returns, or none where that fails. -/
  | curve (points : Option Value)

instance : Inhabited Value := ⟨.absent⟩

namespace Value

/-- Neither missing nor null. -/
def isPresent : Value → Bool
  | absent => false
  | null => false
  | _ => true

def isNumber : Value → Bool
  | number _ => true
  | _ => false

/-- The field of a record with a name, absent from everything else. -/
def field (value : Value) (name : String) : Value :=
  match value with
  | record fields => (fields.lookup name).getD absent
  | _ => absent

/-- The item of a list at a position, absent beyond its end. -/
def item (items : List Value) (position : Nat) : Value := items[position]?.getD absent

/-- The name of the kind of value that is neither missing, null, text, list nor record. -/
def kindName : Value → String
  | absent => "undefined"
  | bool _ => "boolean"
  | number _ => "number"
  | integer _ => "bigint"
  | text _ => "string"
  | _ => "object"

/-- The digits of an integer, with a minus where it is negative. -/
def integerText (i : Int) : String :=
  String.ofList ((if i < 0 then ['-'] else []) ++ Nat.toDigits 10 i.natAbs)

/-- The name of the field that leaves a record without a text. -/
def ownTextField : String := "toString"

mutual

/-- The text that stands for a value in a message, if it has one. -/
def shown? : Value → Option String
  | absent => some "undefined"
  | null => some "null"
  | bool b => some (if b then "true" else "false")
  | number x => some x.shortestText
  | integer i => some (integerText i)
  | text s => some s
  | list items => (shownItems? items).map (String.intercalate ",")
  | record fields =>
    if (fields.lookup ownTextField).isSome then none else some "[object Object]"
  | curve _ => some "[object Object]"

/-- The texts of the items of a list; an item that is missing or null is empty. -/
def shownItems? : List Value → Option (List String)
  | [] => some []
  | absent :: items => (shownItems? items).map ("" :: ·)
  | null :: items => (shownItems? items).map ("" :: ·)
  | item :: items => do
    let text ← shown? item
    let texts ← shownItems? items
    some (text :: texts)

end

mutual

/-- A JSON value as a loose one. -/
def ofJson : Json → Value
  | .null => null
  | .bool b => bool b
  | .number x => number x
  | .text s => text s
  | .list items => list (ofJsonItems items)
  | .record fields => record (ofJsonFields fields)

def ofJsonItems : List Json → List Value
  | [] => []
  | item :: items => ofJson item :: ofJsonItems items

def ofJsonFields : List (String × Json) → List (String × Value)
  | [] => []
  | (name, value) :: fields => (name, ofJson value) :: ofJsonFields fields

end

theorem ofJsonItems_eq_map (items : List Json) : ofJsonItems items = items.map ofJson := by
  induction items with
  | nil => rfl
  | cons item items ih => rw [ofJsonItems, ih, List.map_cons]

end Value
end Toolpath
