/-
# Tokens one by one

A text is read from a place on, up to and with the next token; what is dropped on the way is noted. At the
end of the text there is one mark in the place of a token. A reader that finds a token and is still where
it was before would go on for ever, so that it stops with an error instead.

Key definitions: `Item`, `nextItem`, `readItems`, `Item.ofText`.
-/
import Formulary.Token.Scan

namespace Formulary

/-- What a text is read into, one by one. -/
inductive Item
  | token (t : Token)
  /-- The mark for the end of the text. -/
  | finish (position : Nat)
deriving DecidableEq

/-- A token was read without any progress. -/
structure Stalled where
  position : Nat
deriving DecidableEq, Repr

/-- The message for a reader that makes no progress. -/
def Stalled.message : String :=
  "Lexer made no progress"

/-- The position in a text of which the given rest is still to be read. -/
def positionOf (text rest : List Char) : Nat :=
  text.length - rest.length

/-- The next item of a text of which the given rest is still to be read, the rest behind the item, and
what is dropped so far. -/
def nextItem (text : List Char) : List Char → List Diagnostic → Item × List Char × List Diagnostic
  | [], dropped => (.finish (positionOf text []), [], dropped)
  | c :: cs, dropped =>
    match (nextPiece c cs).1 with
    | .blank _ => nextItem text (nextPiece c cs).2 dropped
    | .lexeme l => (.token ⟨l, positionOf text (c :: cs)⟩, (nextPiece c cs).2, dropped)
    | .dropped d =>
      nextItem text (nextPiece c cs).2 (dropped ++ [⟨.dropped d, positionOf text (c :: cs)⟩])
termination_by cs => cs.length
decreasing_by all_goals exact Nat.lt_succ_of_le (length_nextPiece_le c cs)

/-- A token is not empty, so that the rest behind it is shorter. -/
theorem length_nextItem_lt {text later : List Char} {t : Token} {dropped' : List Diagnostic}
    (rest : List Char) (dropped : List Diagnostic)
    (h : nextItem text rest dropped = (.token t, later, dropped')) : later.length < rest.length := by
  fun_induction nextItem text rest dropped with
  | case1 dropped => cases h
  | case2 c cs dropped b hpiece ih =>
    exact Nat.lt_of_lt_of_le (ih h) (Nat.le_succ_of_le (length_nextPiece_le c cs))
  | case3 c cs dropped l hpiece =>
    cases h
    exact Nat.lt_succ_of_le (length_nextPiece_le c cs)
  | case4 c cs dropped d hpiece ih =>
    exact Nat.lt_of_lt_of_le (ih h) (Nat.le_succ_of_le (length_nextPiece_le c cs))

/-- The items of a text of which the given rest is still to be read, and all that is dropped. -/
def readItems (text rest : List Char) (dropped : List Diagnostic) :
    Except Stalled (List Item × List Diagnostic) :=
  match _h : nextItem text rest dropped with
  | (.finish position, _, dropped) => .ok ([.finish position], dropped)
  | (.token t, later, dropped) =>
    if positionOf text later = positionOf text rest then .error ⟨positionOf text later⟩
    else do
      let (items, all) ← readItems text later dropped
      return (.token t :: items, all)
termination_by rest.length
decreasing_by exact length_nextItem_lt _ _ ‹_›

/-- The items of a text and what is dropped. -/
def Item.ofText (text : String) : Except Stalled (List Item × List Diagnostic) :=
  readItems text.toList text.toList []

end Formulary
