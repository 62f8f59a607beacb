/-
# Data types

The type of a node or of a whole formula is a number, a boolean or a string, or it is unknown. An
unknown type is compatible with every other one. A catalog declares types in words of its own; the
words that are known are read without blanks around them and in any case, and all others declare an
unknown type.

Key definitions: `DataType`, `DataType.ofDeclared`, `DataType.accepts`, `DataType.conflicts`.
-/
import Formulary.Text.Trim

namespace Formulary

/-- The type of a node or a formula. -/
inductive DataType
  | number
  | boolean
  | string
  | unknown
deriving DecidableEq, Repr

namespace DataType

/-- The name of a type. -/
def name : DataType → String
  | number => "number"
  | boolean => "boolean"
  | string => "string"
  | unknown => "unknown"

/-- The words that declare a type. -/
def words : List (String × DataType) := [
  ("number", number), ("integer", number), ("float", number), ("double", number),
  ("decimal", number), ("boolean", boolean), ("bool", boolean), ("string", string),
  ("text", string), ("varchar", string)]

/-- The type that a word declares. -/
def ofWord (word : String) : DataType :=
  (words.lookup word).getD unknown

/-- The type that a catalog declares. All words that are known are ASCII, and no other character
than an ASCII letter has an ASCII letter of one of them as its lower case, so that lower case means
that of ASCII. -/
def ofDeclared : Option String → DataType
  | none => unknown
  | some declared => ofWord (String.ofList ((Text.trim declared).toList.map Char.toLower))

/-- Whether a type is one of those expected; an unknown type always is. -/
def accepts (expected : List DataType) (actual : DataType) : Bool :=
  actual = unknown || expected.contains actual

/-- Whether two types are known and differ. -/
def conflicts (left right : DataType) : Bool :=
  left ≠ unknown && right ≠ unknown && left ≠ right

/-- The type with the given name. -/
def ofName? (word : String) : Option DataType :=
  [number, boolean, string, unknown].find? (·.name = word)

end DataType
end Formulary
