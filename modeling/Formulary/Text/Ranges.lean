/-
# Classes of characters as ranges of code points

A class of characters is a list of inclusive ranges of code points, disjoint and in increasing
order. Membership reads the list from the left and stops at the first range that starts beyond the
character, so that a character from the start of the code space is decided at once.

Key definition: `covers`.
-/

namespace Formulary
namespace Text

/-- Whether a code point lies in one of the ranges, which are in increasing order. -/
def covers : List (Nat × Nat) → Nat → Bool
  | [], _ => false
  | (low, high) :: rest, n => low ≤ n && (n ≤ high || covers rest n)

end Text
end Formulary
