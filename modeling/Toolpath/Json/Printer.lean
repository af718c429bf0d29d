import Toolpath.Decimal.Shortest
import Toolpath.Json.Basic

/-! # JSON text

A value is written on one line, or with every element of a list or record on a line of its own
(`Json.toText`, `Json.toIndentedText`); an empty list or record takes two characters either way.
A number is its shortest text; NaN and the infinities, which JSON cannot write, become `null`.
-/
namespace Toolpath.Json

/-- A digit in lower case, in bases up to sixteen. -/
def unicodeEscape (c : Char) : List Char :=
  '\\' :: 'u' :: '0' :: '0' :: [Nat.digitChar (c.toNat / 16), Nat.digitChar (c.toNat % 16)]

/-- A character inside double quotes: the quote, the backslash and the control characters are
escaped. -/
def escape (c : Char) : List Char :=
  match c with
  | '"' => ['\\', '"']
  | '\\' => ['\\', '\\']
  | '\x08' => ['\\', 'b']
  | '\x0c' => ['\\', 'f']
  | '\n' => ['\\', 'n']
  | '\r' => ['\\', 'r']
  | '\t' => ['\\', 't']
  | c => if c.toNat < 0x20 then unicodeEscape c else [c]

/-- A text in double quotes. -/
def quote (text : String) : List Char := '"' :: (text.toList.flatMap escape ++ ['"'])

/-- A number, or `null` for what is none. -/
def numeral (x : Double) : List Char := if x.isFinite then x.shortestChars else "null".toList

/-- How far a value is indented, or that it is written on one line. -/
abbrev Indentation := Option Nat

namespace Indentation

/-- The start of a line, if there are lines. -/
def newline : Indentation → List Char
  | none => []
  | some depth => '\n' :: List.replicate (2 * depth) ' '

def deeper (indentation : Indentation) : Indentation := indentation.map (· + 1)

/-- What stands between the name of a field and its value. -/
def colon : Indentation → List Char
  | none => [':']
  | some _ => [':', ' ']

end Indentation

mutual

/-- A value as it stands at some indentation. -/
def toChars (indentation : Indentation) : Json → List Char
  | .null => "null".toList
  | .bool true => "true".toList
  | .bool false => "false".toList
  | .number x => numeral x
  | .text s => quote s
  | .list [] => ['[', ']']
  | .list (item :: items) =>
    '[' :: indentation.deeper.newline ++ toChars indentation.deeper item ++
      moreItems indentation.deeper items ++ indentation.newline ++ [']']
  | .record [] => ['\x7b', '\x7d']
  | .record ((name, value) :: fields) =>
    '\x7b' :: indentation.deeper.newline ++ quote name ++ indentation.colon ++
      toChars indentation.deeper value ++ moreFields indentation.deeper fields ++
      indentation.newline ++ ['\x7d']

/-- The items of a list after the first. -/
def moreItems (indentation : Indentation) : List Json → List Char
  | [] => []
  | item :: items =>
    ',' :: indentation.newline ++ toChars indentation item ++ moreItems indentation items

/-- The fields of a record after the first. -/
def moreFields (indentation : Indentation) : List (String × Json) → List Char
  | [] => []
  | (name, value) :: fields =>
    ',' :: indentation.newline ++ quote name ++ indentation.colon ++ toChars indentation value ++
      moreFields indentation fields

end

/-- A value on one line. -/
def toText (json : Json) : String := String.ofList (json.toChars none)

/-- A value over several lines, two more spaces at each level. -/
def toIndentedText (json : Json) : String := String.ofList (json.toChars (some 0))

end Toolpath.Json
