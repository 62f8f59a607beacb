/-
# JSON values

Catalog files are JSON texts and log entries are JSON objects. A number keeps the text that it was
written with, and the fields of an object keep their order; where a name is given twice, the last
field with that name counts.

A string may name half of a surrogate pair alone, and then it is no text: it is kept as its code points.

Key definitions: `Json`, `Json.field?`.
-/

namespace Formulary

/-- A JSON value. -/
inductive Json
  | null
  | bool (value : Bool)
  | number (text : String)
  | string (value : String)
  /-- A string that is no text, since half of a surrogate pair is among its code points. -/
  | illFormed (points : List Nat)
  | array (items : List Json)
  | object (fields : List (String × Json))

namespace Json

/-- A whole number as a value. -/
def ofInt (n : Int) : Json :=
  .number (toString n)

/-- The value of the last field with the given name, if the value is an object that has one. -/
def field? (name : String) : Json → Option Json
  | .object fields => fields.reverse.lookup name
  | _ => none

end Json
end Formulary
