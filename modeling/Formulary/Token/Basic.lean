/-
# Tokens

A formula is written with function names, operators, attribute names in braces, number literals,
parentheses and commas. A token is one of these with its position in the text.

Key definitions: `Lexeme`, `Lexeme.spelling`, `Token`.
-/
import Formulary.Number.Basic

namespace Formulary

/-- What a token stands for. -/
inductive Lexeme
  | function (name : String)
  | operator (symbol : String)
  /-- An attribute name, without its braces. -/
  | reference (name : String)
  /-- A number literal and the number that it denotes. -/
  | value (literal : String) (number : Number)
  | opening
  | closing
  | comma
deriving DecidableEq

namespace Lexeme

/-- The text of a token. -/
def spelling : Lexeme → List Char
  | function name => name.toList
  | operator symbol => symbol.toList
  | reference name => '{' :: name.toList ++ ['}']
  | value literal _ => literal.toList
  | opening => ['(']
  | closing => [')']
  | comma => [',']

/-- Whether an operand may end with the token, so that `AND`, `OR` or `NOT` behind it stands
between two operands. -/
def endsOperand : Lexeme → Bool
  | reference _ | value _ _ | closing => true
  | _ => false

end Lexeme

/-- A lexeme and its position in the text, in characters. -/
structure Token where
  lexeme : Lexeme
  position : Nat
deriving DecidableEq

end Formulary
