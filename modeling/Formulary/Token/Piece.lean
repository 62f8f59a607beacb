/-
# The pieces of a text

A text falls into pieces: single blanks, lexemes, and text that is dropped. A piece is as long as
the class of its first character allows: digits and points from a digit on, word characters from a
letter or an underscore on, operator symbols from an operator symbol on, and everything up to the
next closing brace from an opening brace on. All other pieces are one character long. Words and runs
of symbols are looked up first among the functions and then among the operators; the whole run has
to be found, or it is dropped as a whole.

Key definitions: `Piece`, `nextPiece`, `pieces`.
Key theorems: `text_append_nextPiece` and `flatMap_text_pieces`, the pieces of a text are all of it.
-/
import Formulary.Diagnostic
import Formulary.Number.Numeral
import Formulary.Operator
import Formulary.Signature
import Formulary.Text.Blank
import Formulary.Text.Letter
import Formulary.Text.Numeral
import Formulary.Token.Basic

namespace Formulary

/-- A piece of a text. -/
inductive Piece
  | blank (c : Char)
  | lexeme (l : Lexeme)
  | dropped (d : Dropped)
deriving DecidableEq

/-- The text of a piece. -/
def Piece.text : Piece → List Char
  | blank c => [c]
  | lexeme l => l.spelling
  | dropped d => d.text

/-- Whether a character may continue a number. -/
def continuesNumber (c : Char) : Bool :=
  Text.isDigit c || c = '.'

/-- Whether a character may start a word. -/
def startsWord (c : Char) : Bool :=
  Text.isLetter c || c = '_'

/-- Whether a character may continue a word. -/
def continuesWord (c : Char) : Bool :=
  Text.isLetter c || Text.isNumeral c || c = '_'

/-- Whether operators are written with a character. -/
def isSymbol (c : Char) : Bool :=
  "<>=!+-*/^%".toList.contains c

/-- The piece that a numeral is, given the number that it denotes. -/
def numeralPiece (run : List Char) : Option Number → Piece
  | none => .dropped (.numberOutOfRange run)
  | some number => .lexeme (.value (String.ofList run) number)

/-- The piece that a run of digits and points is. -/
def numberPiece (run : List Char) : Piece :=
  match Numeral.ofText? run with
  | none => .dropped (.malformedNumber run)
  | some numeral => numeralPiece run numeral.toNumber?

/-- The piece that a word or a run of symbols is. -/
def wordPiece (run : List Char) : Piece :=
  if isFunctionName (String.ofList run) then .lexeme (.function (String.ofList run))
  else if isOperator (String.ofList run) then .lexeme (.operator (String.ofList run))
  else .dropped (.unrecognized run)

/-- The first piece of the text `c :: cs`, and the text behind it. -/
def nextPiece (c : Char) (cs : List Char) : Piece × List Char :=
  if Text.isBlank c then (.blank c, cs)
  else if c = '(' then (.lexeme .opening, cs)
  else if c = ')' then (.lexeme .closing, cs)
  else if c = ',' then (.lexeme .comma, cs)
  else if c = '{' then
    match cs.dropWhile (· ≠ '}') with
    | [] => (.dropped .loneBrace, cs)
    | _ :: rest => (.lexeme (.reference (String.ofList (cs.takeWhile (· ≠ '}')))), rest)
  else if Text.isDigit c then
    (numberPiece (c :: cs.takeWhile continuesNumber), cs.dropWhile continuesNumber)
  else if startsWord c then
    (wordPiece (c :: cs.takeWhile continuesWord), cs.dropWhile continuesWord)
  else if isSymbol c then
    (wordPiece (c :: cs.takeWhile isSymbol), cs.dropWhile isSymbol)
  else (.dropped (.unexpected c), cs)

theorem text_numeralPiece (run : List Char) (number : Option Number) :
    (numeralPiece run number).text = run := by
  cases number with
  | none => rfl
  | some number => simp [numeralPiece, Piece.text, Lexeme.spelling]

theorem text_numberPiece (run : List Char) : (numberPiece run).text = run := by
  unfold numberPiece
  split
  · rfl
  · exact text_numeralPiece _ _

theorem text_wordPiece (run : List Char) : (wordPiece run).text = run := by
  unfold wordPiece
  split
  · simp [Piece.text, Lexeme.spelling]
  · split
    · simp [Piece.text, Lexeme.spelling]
    · rfl

/-- A text up to and behind its first closing brace. -/
theorem takeWhile_append_brace {cs rest : List Char} {brace : Char}
    (h : cs.dropWhile (· ≠ '}') = brace :: rest) :
    cs.takeWhile (· ≠ '}') ++ '}' :: rest = cs := by
  have hbrace := List.head?_dropWhile_not (· ≠ '}') cs
  rw [h] at hbrace
  have hsplit := List.takeWhile_append_dropWhile (p := (· ≠ '}')) (l := cs)
  rw [h] at hsplit
  simp at hbrace
  rw [hbrace] at hsplit
  exact hsplit

/-- The first piece and the text behind it are the whole text. -/
theorem text_append_nextPiece (c : Char) (cs : List Char) :
    (nextPiece c cs).1.text ++ (nextPiece c cs).2 = c :: cs := by
  unfold nextPiece
  split
  · rfl
  split
  · next h => rw [h]; rfl
  split
  · next h => rw [h]; rfl
  split
  · next h => rw [h]; rfl
  split
  · next h =>
    rw [h]
    split
    · rfl
    · next hdrop =>
      simp only [Piece.text, Lexeme.spelling, String.toList_ofList, List.cons_append,
        List.append_assoc, List.nil_append, takeWhile_append_brace hdrop]
  split
  · simp [text_numberPiece]
  split
  · simp [text_wordPiece]
  split
  · simp [text_wordPiece]
  · rfl

/-- A piece is not empty, so that the text behind it is shorter than the whole. -/
theorem length_nextPiece_le (c : Char) (cs : List Char) :
    (nextPiece c cs).2.length ≤ cs.length := by
  have hdrop (p : Char → Bool) : (cs.dropWhile p).length ≤ cs.length :=
    (List.dropWhile_sublist p).length_le
  unfold nextPiece
  repeat' split
  any_goals exact Nat.le_refl _
  any_goals exact hdrop _
  next h =>
    have := hdrop (· ≠ '}')
    rw [h, List.length_cons] at this
    exact Nat.le_of_succ_le this

/-- The pieces of a text. -/
def pieces : List Char → List Piece
  | [] => []
  | c :: cs => (nextPiece c cs).1 :: pieces (nextPiece c cs).2
termination_by cs => cs.length
decreasing_by exact Nat.lt_succ_of_le (length_nextPiece_le c cs)

/-- The pieces of a text are, one after the other, the text. -/
theorem flatMap_text_pieces (cs : List Char) : (pieces cs).flatMap Piece.text = cs := by
  fun_induction pieces cs with
  | case1 => rfl
  | case2 c cs ih => rw [List.flatMap_cons, ih, text_append_nextPiece]

end Formulary
