/-
# Writing JSON

A value is written on one line in ASCII: a blank follows each comma and colon between the parts, and
every other character in a string is escaped by its UTF-16 units. Quotation marks, backslashes and
the control characters that have a letter are escaped by a backslash.

Key definition: `Json.render`.
-/
import Formulary.Json.Basic
import Formulary.Text.Quoted

namespace Formulary
namespace Json

/-- One UTF-16 unit as an escape. -/
def escapedUnit (n : Nat) : List Char :=
  '\\' :: 'u' :: Text.hexadecimal 4 n

/-- A character inside a string. -/
def escapedChar (c : Char) : List Char :=
  match c with
  | '"' => ['\\', '"']
  | '\\' => ['\\', '\\']
  | '\n' => ['\\', 'n']
  | '\r' => ['\\', 'r']
  | '\t' => ['\\', 't']
  | '\x08' => ['\\', 'b']
  | '\x0c' => ['\\', 'f']
  | c =>
    if 0x20 ≤ c.toNat && c.toNat < 0x7f then [c]
    else if c.toNat < 0x10000 then escapedUnit c.toNat
    else
      let n := c.toNat - 0x10000
      escapedUnit (0xd800 + n / 0x400) ++ escapedUnit (0xdc00 + n % 0x400)

/-- A code point inside a string; half of a surrogate pair is a unit of its own. -/
def escapedPoint (n : Nat) : List Char :=
  if n.isValidChar then escapedChar (Char.ofNat n) else escapedUnit n

/-- A string between quotation marks. -/
def stringText (s : String) : List Char :=
  '"' :: s.toList.flatMap escapedChar ++ ['"']

mutual

/-- A value as text. -/
def text : Json → List Char
  | .null => "null".toList
  | .bool true => "true".toList
  | .bool false => "false".toList
  | .number written => written.toList
  | .string s => stringText s
  | .illFormed points => '"' :: points.flatMap escapedPoint ++ ['"']
  | .array items => '[' :: itemsText items ++ [']']
  | .object fields => '{' :: fieldsText fields ++ ['}']

/-- The items of an array, separated by commas. -/
def itemsText : List Json → List Char
  | [] => []
  | [item] => item.text
  | item :: rest => item.text ++ ',' :: ' ' :: itemsText rest

/-- The fields of an object, separated by commas. -/
def fieldsText : List (String × Json) → List Char
  | [] => []
  | [(name, value)] => stringText name ++ ':' :: ' ' :: value.text
  | (name, value) :: rest =>
    stringText name ++ ':' :: ' ' :: value.text ++ ',' :: ' ' :: fieldsText rest

end

/-- A value on one line. -/
def render (value : Json) : String :=
  String.ofList value.text

end Json
end Formulary
