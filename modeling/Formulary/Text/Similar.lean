/-
# Similar words

A word that is not known is answered with the known ones that are like it. How much two words have
in common is counted by blocks: the longest block of characters that stands in both, then what the
parts before it have in common, and the parts behind it. Of several longest blocks the one that comes
first in the known word is taken, and of those the first in the other word. Two words are similar if
the characters of the blocks, counted in both words, are at least three fifths of all characters.

Key definitions: `longestBlock`, `sharedCount`, `isSimilar`.
-/

namespace Formulary
namespace Text

/-- A run of characters that stands in two words, by the places where it starts in them. -/
structure Block where
  first : Nat
  second : Nat
  size : Nat
deriving DecidableEq, Repr

/-- The empty block. -/
def Block.none : Block :=
  ⟨0, 0, 0⟩

/-- The longer of two blocks; the earlier one if they are equally long. -/
def Block.longer (earlier later : Block) : Block :=
  if earlier.size < later.size then later else earlier

/-- The number of characters with which two words start alike. -/
def sharedStart : List Char → List Char → Nat
  | a :: as, b :: bs => if a = b then sharedStart as bs + 1 else 0
  | _, _ => 0

/-- The longest of the block `best` and the blocks of two words that start with the first character of
`as`, which is at `first`, and in `bs`, which is from `second` on. -/
def longestAt (first : Nat) (as : List Char) : Nat → List Char → Block → Block
  | _, [], best => best
  | second, b :: bs, best =>
    longestAt first as (second + 1) bs (best.longer ⟨first, second, sharedStart as (b :: bs)⟩)

/-- The longest of the block `best` and the blocks that start in `as`, which is from `first` on. -/
def longestFrom (bs : List Char) : Nat → List Char → Block → Block
  | _, [], best => best
  | first, a :: as, best =>
    longestFrom bs (first + 1) as (longestAt first (a :: as) 0 bs best)

/-- The longest block that stands in two words. -/
def longestBlock (as bs : List Char) : Block :=
  longestFrom bs 0 as .none

/-- The number of characters that two words have in common, where the first has at most `length` of
them. -/
def sharedWithin : Nat → List Char → List Char → Nat
  | 0, _, _ => 0
  | length + 1, as, bs =>
    let block := longestBlock as bs
    if block.size = 0 then 0
    else
      sharedWithin length (as.take block.first) (bs.take block.second) + block.size +
        sharedWithin length (as.drop (block.first + block.size))
          (bs.drop (block.second + block.size))

/-- The number of characters that two words have in common. -/
def sharedCount (as bs : List Char) : Nat :=
  sharedWithin as.length as bs

/-- Whether a known word is similar to another one. -/
def isSimilar (known word : List Char) : Bool :=
  3 * (known.length + word.length) ≤ 10 * sharedCount known word

/-- The known words that are similar to a word, in the order in which they are known. -/
def similarWords (known : List String) (word : String) : List String :=
  known.filter fun candidate => isSimilar candidate.toList word.toList

end Text
end Formulary
