/-
# Reading JSON

The reader takes the JSON grammar with ASCII digits and the four JSON blanks, refuses unescaped
control characters in strings, and takes the words for infinities and "not a number" besides. A text
is one value and nothing behind it. An integer may have no more digits than can be read.

String escapes name UTF-16 units. The two halves of a surrogate pair are one character if they follow
each other; a half that stands alone is taken too, and the string is no text then. A field whose name is
no text is left out, since nothing asks for it.

Every value takes at least one character, so that the length of the text bounds the depth of the
recursion.

Key definitions: `Json.readPoint?`, `Json.parse?`.
-/
import Formulary.Json.Basic
import Formulary.Number.Numeral

namespace Formulary
namespace Json

/-- Whether a character may stand between the parts of a value. -/
def isSpace (c : Char) : Bool :=
  c = ' ' || c = '\t' || c = '\n' || c = '\r'

/-- A text behind its leading blanks. -/
def skipSpace (cs : List Char) : List Char :=
  cs.dropWhile isSpace

/-- The value of a hexadecimal digit. -/
def hexValue? (c : Char) : Option Nat :=
  if '0' ≤ c && c ≤ '9' then some (c.toNat - 48)
  else if 'a' ≤ c && c ≤ 'f' then some (c.toNat - 87)
  else if 'A' ≤ c && c ≤ 'F' then some (c.toNat - 55)
  else none

/-- The value of four hexadecimal digits. -/
def hexUnit? (a b c d : Char) : Option Nat := do
  return (((← hexValue? a) * 16 + (← hexValue? b)) * 16 + (← hexValue? c)) * 16 + (← hexValue? d)

/-- The character of an escape of one letter. -/
def escapedLetter? : Char → Option Char
  | '"' => some '"'
  | '\\' => some '\\'
  | '/' => some '/'
  | 'b' => some '\x08'
  | 'f' => some '\x0c'
  | 'n' => some '\n'
  | 'r' => some '\r'
  | 't' => some '\t'
  | _ => none

/-- Whether a unit is the first half of a surrogate pair. -/
def isHighUnit (n : Nat) : Bool :=
  0xd800 ≤ n && n < 0xdc00

/-- Whether a unit is the second half of a surrogate pair. -/
def isLowUnit (n : Nat) : Bool :=
  0xdc00 ≤ n && n < 0xe000

/-- The code point of a surrogate pair. -/
def pairPoint (high low : Nat) : Nat :=
  0x10000 + (high - 0xd800) * 0x400 + (low - 0xdc00)

/-- The code point of a unit that an escape names, and the rest behind it: the first half of a pair
takes the escape of the second half with it, if that follows. -/
def joinedUnit? (unit : Nat) (rest : List Char) : Option (Nat × List Char) :=
  match rest with
  | '\\' :: 'u' :: a :: b :: c :: d :: behind =>
    if isHighUnit unit then do
      let low ← hexUnit? a b c d
      return if isLowUnit low then (pairPoint unit low, behind) else (unit, rest)
    else some (unit, rest)
  | _ => some (unit, rest)

/-- The first code point of the inside of a string, and the rest behind it. -/
def readPoint? : List Char → Option (Nat × List Char)
  | '\\' :: 'u' :: a :: b :: c :: d :: rest => do joinedUnit? (← hexUnit? a b c d) rest
  | '\\' :: c :: rest => (escapedLetter? c).map fun letter => (letter.toNat, rest)
  | c :: rest => if c.toNat < 0x20 then none else some (c.toNat, rest)
  | [] => none

/-- The code points of the inside of a string up to its closing mark, and the rest behind the mark. -/
def readString? : Nat → List Nat → List Char → Option (List Nat × List Char)
  | 0, _, _ => none
  | _ + 1, sofar, '"' :: rest => some (sofar.reverse, rest)
  | fuel + 1, sofar, cs => do
    let (point, rest) ← readPoint? cs
    readString? fuel (point :: sofar) rest

/-- The text of code points, if they are one. -/
def textOf? (points : List Nat) : Option String :=
  if points.all Nat.isValidChar then some (String.ofList (points.map Char.ofNat)) else none

/-- The value of a string. -/
def ofPoints (points : List Nat) : Json :=
  match textOf? points with
  | some text => .string text
  | none => .illFormed points

/-- Whether a character is an ASCII digit. -/
def isDigit (c : Char) : Bool :=
  '0' ≤ c && c ≤ '9'

/-- The digits of an integer without a sign: a zero, or digits that do not start with one. -/
def readWhole? : List Char → Option (List Char × List Char)
  | '0' :: rest => some (['0'], rest)
  | c :: rest =>
    if isDigit c then some (c :: rest.takeWhile isDigit, rest.dropWhile isDigit) else none
  | [] => none

/-- A point and the digits behind it, if the text starts with them. -/
def readFraction : List Char → List Char × List Char
  | '.' :: c :: rest =>
    if isDigit c then ('.' :: c :: rest.takeWhile isDigit, rest.dropWhile isDigit)
    else ([], '.' :: c :: rest)
  | cs => ([], cs)

/-- An exponent mark and the digits behind it, if the text starts with them. -/
def readExponent (cs : List Char) : List Char × List Char :=
  match cs with
  | mark :: rest =>
    let (sign, digits) :=
      match rest with
      | '+' :: digits => (['+'], digits)
      | '-' :: digits => (['-'], digits)
      | digits => ([], digits)
    if (mark = 'e' || mark = 'E') && (digits.head?.map isDigit).getD false then
      (mark :: sign ++ digits.takeWhile isDigit, digits.dropWhile isDigit)
    else ([], cs)
  | [] => ([], [])

/-- Whether a number is an integer that has more digits than can be read. -/
def isTooLong (whole fraction exponent : List Char) : Bool :=
  fraction.isEmpty && exponent.isEmpty && maxDigits < whole.length

/-- A number, as it is written. -/
def readNumber? (cs : List Char) : Option (Json × List Char) := do
  let (sign, unsigned) :=
    match cs with
    | '-' :: rest => (['-'], rest)
    | _ => ([], cs)
  let (whole, rest) ← readWhole? unsigned
  let (fraction, rest) := readFraction rest
  let (exponent, rest) := readExponent rest
  if isTooLong whole fraction exponent then none
  else return (.number (String.ofList (sign ++ whole ++ fraction ++ exponent)), rest)

/-- The values that are written as words. -/
def words : List (List Char × Json) := [
  ("null".toList, .null), ("true".toList, .bool true), ("false".toList, .bool false),
  ("NaN".toList, .number "NaN"), ("Infinity".toList, .number "Infinity"),
  ("-Infinity".toList, .number "-Infinity")]

/-- A value that is a word. -/
def readWord? (cs : List Char) : Option (Json × List Char) :=
  words.findSome? fun (word, value) =>
    if word.isPrefixOf cs then some (value, cs.drop word.length) else none

mutual

/-- A value at the start of a text, and the rest behind it. -/
def readValue? : Nat → List Char → Option (Json × List Char)
  | 0, _ => none
  | fuel + 1, '"' :: rest => do
    let (points, rest) ← readString? (fuel + 1) [] rest
    return (ofPoints points, rest)
  | fuel + 1, '[' :: rest =>
    match skipSpace rest with
    | ']' :: rest => some (.array [], rest)
    | rest => readItems? fuel [] rest
  | fuel + 1, '{' :: rest =>
    match skipSpace rest with
    | '}' :: rest => some (.object [], rest)
    | rest => readFields? fuel [] rest
  | _ + 1, cs => (readWord? cs).or (readNumber? cs)

/-- The items of an array that is not empty, after those in `sofar`, up to its end. -/
def readItems? : Nat → List Json → List Char → Option (Json × List Char)
  | 0, _, _ => none
  | fuel + 1, sofar, cs => do
    let (item, rest) ← readValue? fuel cs
    match skipSpace rest with
    | ',' :: rest => readItems? fuel (item :: sofar) (skipSpace rest)
    | ']' :: rest => return (.array (item :: sofar).reverse, rest)
    | _ => none

/-- The fields of an object that is not empty, after those in `sofar`, up to its end. -/
def readFields? : Nat → List (String × Json) → List Char → Option (Json × List Char)
  | 0, _, _ => none
  | fuel + 1, sofar, '"' :: rest => do
    let (points, rest) ← readString? (fuel + 1) [] rest
    match skipSpace rest with
    | ':' :: rest =>
      let (value, rest) ← readValue? fuel (skipSpace rest)
      let sofar := ((textOf? points).map (·, value)).toList ++ sofar
      match skipSpace rest with
      | ',' :: rest => readFields? fuel sofar (skipSpace rest)
      | '}' :: rest => return (.object sofar.reverse, rest)
      | _ => none
    | _ => none
  | _ + 1, _, _ => none

end

/-- The value that a text is, with blanks around it. -/
def parse? (text : String) : Option Json := do
  let cs := text.toList
  let (value, rest) ← readValue? (2 * cs.length + 2) (skipSpace cs)
  if (skipSpace rest).isEmpty then return value else none

end Json
end Formulary
