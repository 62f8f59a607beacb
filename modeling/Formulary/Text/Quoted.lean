/-
# Quoted text

Messages quote the text that they complain about. The marks are single quotes, or double quotes
where the text holds a single quote and no double one. A mark inside the text and a backslash are
written after a backslash, tabs and line ends by their letters, and every other character that is
not printable by its code point in hexadecimal.

Key definitions: `hexadecimal`, `quoted`.
-/
import Formulary.Text.Printable

namespace Formulary
namespace Text

/-- A number in hexadecimal, with zeros in front up to the given width. -/
def hexadecimal (width n : Nat) : List Char :=
  (Nat.toDigits 16 n).leftpad width '0'

/-- A code point as an escape of two, four or eight digits. -/
def escapedCode (n : Nat) : List Char :=
  if n < 0x100 then '\\' :: 'x' :: hexadecimal 2 n
  else if n < 0x10000 then '\\' :: 'u' :: hexadecimal 4 n
  else '\\' :: 'U' :: hexadecimal 8 n

/-- A character inside quotation marks. -/
def escaped (mark c : Char) : List Char :=
  if c = mark || c = '\\' then ['\\', c]
  else if c = '\t' then ['\\', 't']
  else if c = '\n' then ['\\', 'n']
  else if c = '\r' then ['\\', 'r']
  else if isPrintable c then [c]
  else escapedCode c.toNat

/-- The quotation mark for a text: the single one, unless only that one occurs in it. -/
def quotationMark (cs : List Char) : Char :=
  if cs.contains '\'' && !cs.contains '"' then '"' else '\''

/-- A text between quotation marks. -/
def quoted (cs : List Char) : List Char :=
  let mark := quotationMark cs
  mark :: cs.flatMap (escaped mark) ++ [mark]

end Text
end Formulary
