import Toolpath.Json.Loose

/-! # From tokens to values

The reader walks the tokens once and keeps the unfinished lists and records around the place where
it is on a stack.  `Json.value?` is where a value is due, `Json.resume?` where one has just ended;
each takes a token or more at every step.  `Json.ofText?` reads the strict spelling,
`Json.ofLooseText?` the loose one, and `Json.ofEitherText?` the loose one where the strict one
fails.
-/
namespace Toolpath.Json

/-- A list or a record of which the part before some value has been read.  The items of the list are
there latest first; the record already has the name of its next field. -/
inductive Unfinished
  | list (items : List Json)
  | record (fields : List (String × Json)) (name : String)

mutual

/-- The value that a sequence of tokens spells, where the value of the innermost unfinished list or
record is due. -/
def value? (around : List Unfinished) : List Token → Option Json
  | .null :: rest => resume? around .null rest
  | .bool b :: rest => resume? around (.bool b) rest
  | .number x :: rest => resume? around (.number x) rest
  | .text s :: rest => resume? around (.text s) rest
  | .openList :: .closeList :: rest => resume? around (.list []) rest
  | .openList :: rest => value? (.list [] :: around) rest
  | .openRecord :: .closeRecord :: rest => resume? around (.record []) rest
  | .openRecord :: .text name :: .colon :: rest => value? (.record [] name :: around) rest
  | _ => none

/-- The same where a value has just ended: the end of the tokens, a comma and another value, or the
end of what is unfinished, which is then the value that has just ended. -/
def resume? (around : List Unfinished) (value : Json) (tokens : List Token) : Option Json :=
  match around, tokens with
  | [], [] => some value
  | .list items :: around, .comma :: rest => value? (.list (value :: items) :: around) rest
  | .list items :: around, .closeList :: rest =>
    resume? around (.list (value :: items).reverse) rest
  | .record fields name :: around, .comma :: .text next :: .colon :: rest =>
    value? (.record (put fields name value) next :: around) rest
  | .record fields name :: around, .closeRecord :: rest =>
    resume? around (.record (put fields name value)) rest
  | _, _ => none

end

/-- The value that a text spells in some spelling. -/
def read? (lexer : Lexer) (text : String) : Option Json :=
  (lexer.tokens text.toList).bind (value? [])

/-- The value of a JSON text. -/
def ofText? (text : String) : Option Json := read? Strict.lexer text

/-- The value of a literal in the loose spelling. -/
def ofLooseText? (text : String) : Option Json := read? Loose.lexer text

/-- The value of a text, strict if it can be read so and loose otherwise. -/
def ofEitherText? (text : String) : Option Json := ofText? text <|> ofLooseText? text

end Toolpath.Json
