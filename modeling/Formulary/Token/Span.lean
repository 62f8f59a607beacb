/-
# Spans of function calls

An editor that highlights a formula needs the place of each call before the formula is complete or
correct. The spans are found from the tokens alone: a parenthesis behind a function name opens a
call, unless the name is also an operator and stands behind an operand; every other parenthesis
opens a group. A closing parenthesis closes what was opened last, and calls that are never closed
have no span. The depth of a call is what the number of the open calls was where it was opened.

Key definitions: `CallSpan`, `CallSpan.ofTokens`, `callSpans`.
-/
import Formulary.Sorting
import Formulary.Token.Scan

namespace Formulary

/-- The place of a call. -/
structure CallSpan where
  name : String
  /-- The position of the name. -/
  start : Nat
  /-- The position of the opening parenthesis. -/
  opening : Nat
  /-- The position of the closing parenthesis. -/
  closing : Nat
  /-- The number of calls around this one. -/
  depth : Nat
deriving DecidableEq, Repr

namespace CallSpan

/-- A parenthesis that is open. -/
inductive Bracket
  | call (name : String) (start opening : Nat)
  | group
deriving DecidableEq, Repr

/-- Whether a bracket belongs to a call. -/
def Bracket.isCall : Bracket → Bool
  | call _ _ _ => true
  | group => false

/-- The bracket that a parenthesis opens behind the tokens `before` and `previous`. -/
def Bracket.behind (before previous : Option Token) (opening : Nat) : Bracket :=
  match previous with
  | some ⟨.function name, start⟩ =>
    if isOperator name && (before.map (·.lexeme.endsOperand)).getD false then group
    else call name start opening
  | _ => group

/-- The spans that end in a list of tokens behind the tokens `before` and `previous`, where `depth` calls
are open, with the brackets that are open, innermost first, and with what the depth was when each was
opened; in the order in which the calls are closed. -/
def closedIn (before previous : Option Token) :
    Nat → List (Bracket × Nat) → List Token → List CallSpan
  | _, _, [] => []
  | depth, stack, token :: rest =>
    match token.lexeme, stack with
    | .opening, _ =>
      let bracket := Bracket.behind before previous token.position
      closedIn previous (some token) (depth + bracket.isCall.toNat) ((bracket, depth) :: stack) rest
    | .closing, (.call name start opening, around) :: outer =>
      ⟨name, start, opening, token.position, around⟩ ::
        closedIn previous (some token) (depth - 1) outer rest
    | .closing, (.group, _) :: outer => closedIn previous (some token) depth outer rest
    | _, _ => closedIn previous (some token) depth stack rest

/-- The spans of the calls in a list of tokens, in the order in which they start. -/
def ofTokens (tokens : List Token) : List CallSpan :=
  sortBy (fun a b => a.start ≤ b.start) (closedIn none none 0 [] tokens)

end CallSpan

/-- The spans of the calls in a text, in the order in which they start. -/
def callSpans (text : String) : List CallSpan :=
  CallSpan.ofTokens (Scan.ofText text).tokens

end Formulary
