/-
# Scanning a text

A scan places the pieces of a text: the tokens and the diagnostics for dropped pieces get the
position of their first character. Blanks leave no trace but the distance that they make. The scan
also tells where the text is finished.

Key definitions: `Scan`, `Scan.ofText`, `tokensFrom`, `droppedFrom`.
-/
import Formulary.Token.Piece

namespace Formulary

/-- The tokens among pieces of which the first is at the given position. -/
def tokensFrom : Nat → List Piece → List Token
  | _, [] => []
  | position, .lexeme l :: rest => ⟨l, position⟩ :: tokensFrom (position + l.spelling.length) rest
  | position, piece :: rest => tokensFrom (position + piece.text.length) rest

/-- The diagnostics for the pieces dropped among those of which the first is at the given
position. -/
def droppedFrom : Nat → List Piece → List Diagnostic
  | _, [] => []
  | position, .dropped d :: rest =>
    ⟨.dropped d, position⟩ :: droppedFrom (position + d.text.length) rest
  | position, piece :: rest => droppedFrom (position + piece.text.length) rest

/-- Where pieces end of which the first is at the given position. -/
def finishFrom : Nat → List Piece → Nat
  | position, [] => position
  | position, piece :: rest => finishFrom (position + piece.text.length) rest

/-- What a text holds. -/
structure Scan where
  tokens : List Token
  /-- One diagnostic for each piece that is dropped, in the order of the text. -/
  diagnostics : List Diagnostic
  /-- The position behind the last character. -/
  finish : Nat
deriving DecidableEq

/-- The scan of a text. -/
def Scan.ofText (text : String) : Scan :=
  let all := pieces text.toList
  ⟨tokensFrom 0 all, droppedFrom 0 all, finishFrom 0 all⟩

end Formulary
