/-
# Blank characters

The characters that separate tokens and are trimmed off names: the Unicode space separators, the
line and paragraph separators, and the control characters for tabs, line ends and the four
information separators. The zero-width space is not one of them.

Around literals the information separators do not count as blank.

Key definitions: `isBlank`, `isWhiteSpace`.
-/
import Formulary.Text.Ranges

namespace Formulary
namespace Text

/-- The blank code points. -/
def blankRanges : List (Nat × Nat) := [
  (9, 13), (28, 32), (133, 133), (160, 160), (5760, 5760), (8192, 8202), (8232, 8233),
  (8239, 8239), (8287, 8287), (12288, 12288)]

/-- Whether a character is blank. -/
def isBlank (c : Char) : Bool :=
  covers blankRanges c.toNat

/-- Whether a character is blank and no information separator. -/
def isWhiteSpace (c : Char) : Bool :=
  isBlank c && !(0x1c ≤ c.toNat && c.toNat ≤ 0x1f)

end Text
end Formulary
