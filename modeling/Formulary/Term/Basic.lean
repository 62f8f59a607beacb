/-
# Terms

The tree that a formula is read into. A sequence is a list of terms in which operands and operators
should alternate, but need not: there is no precedence, and an operator stands in a sequence like
any other term. Calls and groups hold sequences, a call one for each argument. Every term keeps the
place in the text that it was read from.

Key definitions: `Term`, `Parens`, `Term.isOperand`, `Term.count`.
-/
import Formulary.Number.Basic

namespace Formulary

/-- The positions of a pair of parentheses; the closing one may be missing. -/
structure Parens where
  opening : Nat
  closing : Option Nat
deriving DecidableEq, Repr

/-- A part of a formula, with its position in the text. -/
inductive Term
  | reference (position : Nat) (id : String)
  | operator (position : Nat) (symbol : String)
  | value (position : Nat) (number : Number)
  /-- A call; without parentheses if the name stood alone. -/
  | call (position : Nat) (name : String) (parens : Option Parens) (arguments : List (List Term))
  | group (parens : Parens) (body : List Term)

namespace Term

/-- Whether a term stands for a value in a sequence. -/
def isOperand : Term → Bool
  | operator _ _ => false
  | _ => true

mutual

/-- The number of nodes of a term. -/
def count : Term → Nat
  | reference _ _ | operator _ _ | value _ _ => 1
  | call _ _ _ arguments => 1 + countArguments arguments
  | group _ body => 1 + countSequence body

/-- The number of nodes of a sequence. -/
def countSequence : List Term → Nat
  | [] => 0
  | term :: rest => term.count + countSequence rest

/-- The number of nodes of the arguments of a call; each is a group. -/
def countArguments : List (List Term) → Nat
  | [] => 0
  | argument :: rest => 1 + countSequence argument + countArguments rest

end

end Term
end Formulary
