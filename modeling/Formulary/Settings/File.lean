/-
# Settings files

A settings file has an assignment `NAME=value` on each line. Blanks around the equals sign and at the
end of the line do not count, and the word `export` may stand before the name. A name goes up to a
blank, an equals sign or a number sign, or stands in single quotes. A value may stand in single or
double quotes and then go over several lines; in a value without quotes a number sign behind a blank
starts a comment. A line with a name alone is an assignment without a value. A line that starts with
a number sign is a comment, and the rest of a line that has none of these forms is passed over.

Each of the steps below reads something at the start of a text and gives what stands behind it. A
step that fails gives the text at which it does.

Key definitions: `Assignment`, `assignmentAt`, `assignmentsOfFile`.
-/
import Formulary.Text.Trim

namespace Formulary

/-- A line of a settings file. -/
structure Assignment where
  name : String
  /-- The value; nothing if the name stands alone. -/
  value : Option String
deriving DecidableEq, Repr

/-- What a step reads and what stands behind it, or the text at which the step fails. -/
abbrev Reading (α : Type) := Except (List Char) (α × List Char)

/-- A text in which all lines end with a line feed alone. -/
def lineFeeds : List Char → List Char
  | '\r' :: '\n' :: rest => '\n' :: lineFeeds rest
  | '\r' :: rest => '\n' :: lineFeeds rest
  | c :: rest => c :: lineFeeds rest
  | [] => []

/-- Whether a character is blank and does not end a line. -/
def isInlineBlank (c : Char) : Bool :=
  Text.isBlank c && c ≠ '\n'

/-- A text behind the blanks before something else on the line. -/
def skipBlanks (cs : List Char) : List Char :=
  cs.dropWhile isInlineBlank

/-- A text from the end of its first line on. -/
def fromLineEnd (cs : List Char) : List Char :=
  cs.dropWhile (· ≠ '\n')

/-! ### Names -/

/-- A text behind the word `export`, if it stands before something else. -/
def behindExport (cs : List Char) : List Char :=
  let word := "export".toList
  if word.isPrefixOf cs && ((cs.drop word.length).head?.map isInlineBlank).getD false then
    skipBlanks (cs.drop word.length)
  else cs

/-- Whether a character may stand in a name without quotes. -/
def continuesName (c : Char) : Bool :=
  !Text.isBlank c && c ≠ '=' && c ≠ '#'

/-- The name at the start of a text; none if a comment starts there. -/
def nameAt (cs : List Char) : Reading (Option (List Char)) :=
  match cs with
  | '#' :: _ => .ok (none, cs)
  | '\'' :: rest =>
    match rest.takeWhile (· ≠ '\''), rest.dropWhile (· ≠ '\'') with
    | [], _ => .error cs
    | _, [] => .error cs
    | name, _ :: behind => .ok (some name, behind)
  | _ =>
    match cs.takeWhile continuesName with
    | [] => .error cs
    | name => .ok (some name, cs.dropWhile continuesName)

/-! ### Values -/

/-- The character that an escape in quotes stands for. In single quotes only the mark and the
backslash are escaped. -/
def escapedIn? (mark c : Char) : Option Char :=
  if c = mark || c = '\\' then some c
  else if mark = '\'' then none
  else
    match c with
    | '\'' => some '\''
    | 'a' => some '\x07'
    | 'b' => some '\x08'
    | 'f' => some '\x0c'
    | 'n' => some '\n'
    | 'r' => some '\r'
    | 't' => some '\t'
    | 'v' => some '\x0b'
    | _ => none

/-- The inside of quotes with each escape replaced by what it stands for. -/
def unescaped (mark : Char) : List Char → List Char
  | [] => []
  | [c] => [c]
  | c :: d :: rest =>
    if c = '\\' then
      match escapedIn? mark d with
      | some e => e :: unescaped mark rest
      | none => c :: unescaped mark (d :: rest)
    else c :: unescaped mark (d :: rest)

/-- The inside of quotes, given the text behind the opening mark, and the text behind the closing one.
A mark behind a backslash closes the quotes only if no mark follows that does. -/
def insideQuotes? (mark : Char) : List Char → Option (List Char × List Char)
  | [] => none
  | [c] => if c = mark then some ([], []) else none
  | c :: d :: rest =>
    if c = mark then some ([], d :: rest)
    else if c = '\\' && d = mark then
      match insideQuotes? mark rest with
      | some (inside, behind) => some (c :: d :: inside, behind)
      | none => some ([c], rest)
    else (insideQuotes? mark (d :: rest)).map fun (inside, behind) => (c :: inside, behind)

/-- A value without quotes up to a comment. -/
def withoutComment : List Char → List Char
  | [] => []
  | c :: rest =>
    if Text.isBlank c && (rest.dropWhile Text.isBlank).head? = some '#' then []
    else c :: withoutComment rest

/-- The value at the start of a text, given what stands behind the equals sign. -/
def valueAt (cs : List Char) : Reading (List Char) :=
  let own := skipBlanks cs
  match own with
  | [] => .ok ([], [])
  | mark :: rest =>
    if mark = '"' || mark = '\'' then
      match insideQuotes? mark rest with
      | some (inside, behind) => .ok (unescaped mark inside, behind)
      | none => .error own
    else
      .ok (Text.trimBy Text.isBlank (withoutComment (cs.takeWhile (· ≠ '\n'))), fromLineEnd cs)

/-- The value that is assigned at the start of a text; none if no equals sign stands there. -/
def assignedAt (cs : List Char) : Reading (Option (List Char)) :=
  match skipBlanks cs with
  | '=' :: rest => (valueAt rest).map fun (value, behind) => (some value, behind)
  | rest => .ok (none, rest)

/-! ### Lines -/

/-- The text from the end of the line on, where nothing but a comment may stand before it. -/
def lineEndAt (cs : List Char) : Except (List Char) (List Char) :=
  match skipBlanks cs with
  | '#' :: rest => .ok (fromLineEnd rest)
  | '\n' :: rest => .ok ('\n' :: rest)
  | [] => .ok []
  | rest => .error rest

/-- The assignment at the start of a text; none if a comment stands there. -/
def assignmentAt (cs : List Char) : Except (List Char) (Option Assignment × List Char) := do
  let (name, cs) ← nameAt (behindExport cs)
  let (value, cs) ← assignedAt cs
  let cs ← lineEndAt cs
  return (name.map fun name => ⟨String.ofList name, value.map String.ofList⟩, cs)

/-- The assignments of a text of at most the given length. Each step takes at least one character of
a text that does not start with a blank. -/
def assignmentsIn : Nat → List Char → List Assignment
  | 0, _ => []
  | length + 1, cs =>
    match cs.dropWhile Text.isBlank with
    | [] => []
    | start =>
      match assignmentAt start with
      | .ok (found, rest) => found.toList ++ assignmentsIn length rest
      | .error rest => assignmentsIn length (fromLineEnd rest)

/-- The assignments of a settings file, in its order. -/
def assignmentsOfFile (text : String) : List Assignment :=
  assignmentsIn text.length (lineFeeds text.toList)

end Formulary
