/-
# Trimming

Names, declared types and numbers may be written with blanks around them; what counts is the text
between the first and the last character that is not blank.

Key definitions: `trimBy`, `trim`.
-/
import Formulary.Text.Blank

namespace Formulary
namespace Text

/-- A text without the characters of a class at its two ends. -/
def trimBy (drops : Char → Bool) (cs : List Char) : List Char :=
  ((cs.dropWhile drops).reverse.dropWhile drops).reverse

/-- A text without the blanks at its two ends. -/
def trim (s : String) : String :=
  String.ofList (trimBy isBlank s.toList)

end Text
end Formulary
