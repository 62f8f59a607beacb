/-
# Reading terms

Tokens are read from left to right with a stack of open parentheses. Each open parenthesis remembers
whether it belongs to a call or is a group, the arguments of the call that are complete, and the
terms that stand before it in the sequence around it; beside the stack there are the terms of the
innermost sequence.

A function name followed by a parenthesis starts a call, except that `AND`, `OR` and `NOT` behind an
operand are operators. Without a parenthesis those three are operators everywhere, and any other
function name is noted and read as a call without arguments. A comma ends an argument when the
innermost open parenthesis belongs to a call, and is noted otherwise. A call whose parentheses have
no token between them has no arguments; any other call has one more argument than commas, and an
argument may be empty. A closing parenthesis with nothing to close is noted and dropped, and what is
still open at the end of the text is noted and closed there.

Reading fails only where a parenthesis opens below too many others.

Key definitions: `Progress`, `Progress.read`, `readTerms`, `Overflow`.
-/
import Formulary.Catalog.Basic
import Formulary.Diagnostic
import Formulary.Operator
import Formulary.Term.Basic
import Formulary.Token.Basic

namespace Formulary

/-- What an open parenthesis belongs to. -/
inductive Opened
  /-- A call, with its complete arguments, last first. -/
  | call (position : Nat) (name : String) (arguments : List (List Term))
  | group

/-- An open parenthesis. -/
structure Frame where
  opened : Opened
  /-- The position of the parenthesis. -/
  opening : Nat
  /-- The terms before it in the sequence around it, last first. -/
  outer : List Term

/-- The term that ends with a sequence, given last term first, and with the closing parenthesis. -/
def Frame.close (frame : Frame) (closing : Option Nat) (body : List Term) : Term :=
  match frame.opened with
  | .call position name arguments =>
    .call position name (some ⟨frame.opening, closing⟩) (body.reverse :: arguments).reverse
  | .group => .group ⟨frame.opening, closing⟩ body.reverse

/-- What is noted when the parenthesis is never closed. -/
def Frame.fault (frame : Frame) : Fault :=
  match frame.opened with
  | .call _ name _ => .unclosedCall name
  | .group => .unclosedGroup

/-- The number of nodes that a frame stands for so far. -/
def Frame.count (frame : Frame) : Nat :=
  Term.countSequence frame.outer +
    match frame.opened with
    | .call _ _ arguments => 2 + Term.countArguments arguments
    | .group => 1

/-- The number of nodes that open parentheses stand for so far. -/
def countFrames : List Frame → Nat
  | [] => 0
  | frame :: rest => frame.count + countFrames rest

/-- The state between two tokens. -/
structure Progress where
  /-- The open parentheses, innermost first. -/
  frames : List Frame
  /-- The terms of the innermost sequence, last first. -/
  body : List Term
  /-- What was noted, last first. -/
  notes : List Diagnostic

/-- A parenthesis that opens below too many others. -/
structure Overflow where
  /-- The position of the function name of a call, or of the parenthesis of a group. -/
  position : Nat
  /-- The number of nodes made up to and with the one that is nested too deeply. -/
  built : Nat
deriving DecidableEq, Repr

/-- The message for an overflow, without its position. -/
def Overflow.message (limit : Int) : String :=
  "Formula nesting exceeds the maximum depth of " ++ toString limit

namespace Progress

/-- Nothing is read yet. -/
def start : Progress :=
  ⟨[], [], []⟩

/-- The number of nodes made so far. -/
def count (s : Progress) : Nat :=
  Term.countSequence s.body + countFrames s.frames

/-- Puts a term behind the innermost sequence. -/
def push (term : Term) (s : Progress) : Progress :=
  { s with body := term :: s.body }

/-- Notes a fault. -/
def note (fault : Fault) (position : Nat) (s : Progress) : Progress :=
  { s with notes := ⟨fault, position⟩ :: s.notes }

/-- Whether the last term of the innermost sequence is an operand. -/
def followsOperand (s : Progress) : Bool :=
  (s.body.head?.map Term.isOperand).getD false

/-- Checks that one more parenthesis may open; `position` is where it is too deep if not. -/
def descend (limit : Int) (position : Nat) (s : Progress) : Except Overflow Unit :=
  if s.frames.length + 1 > limit then .error ⟨position, s.count + 1⟩ else .ok ()

/-- Opens a parenthesis. -/
def enter (opened : Opened) (opening : Nat) (s : Progress) : Progress :=
  { s with frames := ⟨opened, opening, s.body⟩ :: s.frames, body := [] }

/-- Ends an argument at a comma. -/
def separate (position : Nat) (s : Progress) : Progress :=
  match s.frames with
  | ⟨.call start name arguments, opening, outer⟩ :: frames =>
    { s with
      frames := ⟨.call start name (s.body.reverse :: arguments), opening, outer⟩ :: frames
      body := [] }
  | _ => s.note .strayComma position

/-- Closes the innermost parenthesis. -/
def leave (position : Nat) (s : Progress) : Progress :=
  match s.frames with
  | frame :: frames =>
    { s with frames, body := frame.close (some position) s.body :: frame.outer }
  | [] => s.note .unmatchedClosing position

/-- Reads an attribute name. -/
def refer (catalog : Catalog) (name : String) (position : Nat) (s : Progress) : Progress :=
  match catalog.findByName? name with
  | some found => s.push (.reference position found.id)
  | none => s.note (.unknownName name) position

/-- Reads a function name that no parenthesis follows. -/
def readBare (name : String) (position : Nat) (s : Progress) : Progress :=
  if isOperator name then s.push (.operator position name)
  else (s.note (.missingArguments name) position).push (.call position name none [])

/-- Reads tokens. -/
def read (limit : Int) (catalog : Catalog) : List Token → Progress → Except Overflow Progress
  | [], s => .ok s
  | ⟨.function name, position⟩ :: ⟨.opening, opening⟩ :: rest, s =>
    if isOperator name && s.followsOperand then do
      let s := s.push (.operator position name)
      s.descend limit opening
      read limit catalog rest (s.enter .group opening)
    else do
      s.descend limit position
      match rest with
      | [] =>
        return (s.note (.unclosedCall name) opening).push
          (.call position name (some ⟨opening, none⟩) [])
      | ⟨.closing, closing⟩ :: rest =>
        read limit catalog rest (s.push (.call position name (some ⟨opening, some closing⟩) []))
      | token :: rest =>
        read limit catalog (token :: rest) (s.enter (.call position name []) opening)
  | ⟨.function name, position⟩ :: rest, s => read limit catalog rest (s.readBare name position)
  | ⟨.operator symbol, position⟩ :: rest, s =>
    read limit catalog rest (s.push (.operator position symbol))
  | ⟨.reference name, position⟩ :: rest, s =>
    read limit catalog rest (s.refer catalog name position)
  | ⟨.value _ number, position⟩ :: rest, s =>
    read limit catalog rest (s.push (.value position number))
  | ⟨.opening, position⟩ :: rest, s => do
    s.descend limit position
    read limit catalog rest (s.enter .group position)
  | ⟨.closing, position⟩ :: rest, s => read limit catalog rest (s.leave position)
  | ⟨.comma, position⟩ :: rest, s => read limit catalog rest (s.separate position)

/-- Closes all open parentheses at the end of the text. -/
def closeAll : List Frame → List Term → List Diagnostic → List Term × List Diagnostic
  | [], body, notes => (body.reverse, notes.reverse)
  | frame :: frames, body, notes =>
    closeAll frames (frame.close none body :: frame.outer) (⟨frame.fault, frame.opening⟩ :: notes)

end Progress

/-- The terms that tokens are read into, and what is noted on the way. -/
def readTerms (limit : Int) (catalog : Catalog) (tokens : List Token) :
    Except Overflow (List Term × List Diagnostic) := do
  let s ← Progress.read limit catalog tokens .start
  return Progress.closeAll s.frames s.body s.notes

end Formulary
