/-
# Operators

The operators are a closed set of symbols in four families, by what they ask of their operands. The
symbols of the boolean family are words, and the same words are names of functions.

Key definitions: `Operator.Family`, `Operator.family?`, `isOperator`.
-/

namespace Formulary
namespace Operator

/-- What an operator computes and what it asks of its operands. -/
inductive Family
  | arithmetic
  | equality
  | relational
  | boolean
deriving DecidableEq, Repr

/-- The symbols of a family. -/
def Family.symbols : Family → List String
  | arithmetic => ["+", "-", "*", "/", "**", "%"]
  | equality => ["==", "!="]
  | relational => [">", "<", ">=", "<="]
  | boolean => ["AND", "OR", "NOT"]

/-- The families in the order in which they are asked. -/
def families : List Family :=
  [.arithmetic, .equality, .relational, .boolean]

/-- The family of a symbol, if it is one of the operators. -/
def family? (symbol : String) : Option Family :=
  families.find? (·.symbols.contains symbol)

end Operator

/-- Whether a word is an operator. -/
def isOperator (word : String) : Bool :=
  (Operator.family? word).isSome

end Formulary
