/-
# Checking a formula

A check reads a formula from its text and tells all there is to know about it: the nodes, the
canonical text, the diagnostics, and the reports on its shape and its types. The formula is valid if
neither report has an issue; text that was dropped does not make it invalid.

An integer with more digits than can be read stops a check when reading comes to it, which it does
unless a parenthesis before it opens too deeply.

Key definitions: `Check`, `Check.ofText`, `Check.isValid`, `tooLong?`.
-/
import Formulary.Canonical
import Formulary.Formula
import Formulary.Structure
import Formulary.Typing.Inference

namespace Formulary

/-- What is known about the text of a formula. -/
structure Check where
  formula : Formula
  store : Store
  canonical : String
  diagnostics : List Diagnostic
  shape : StructureReport
  types : TypeReport

namespace Check

/-- Checks a text under a limit for the nesting; references that the catalog does not have are
written as the placeholder. -/
def ofText (limit : Int) (placeholder : String) (catalog : Catalog) (text : String) :
    Except Overflow Check := do
  let formula ← Formula.read limit catalog text
  let store := formula.store 0
  return {
    formula, store
    canonical := store.canonical catalog placeholder
    diagnostics := formula.diagnostics
    shape := store.structureReport (some catalog)
    types := store.inferTypes catalog }

/-- Whether neither the shape nor the types have an issue. -/
def isValid (check : Check) : Bool :=
  check.shape.isValid && check.types.isValid

end Check

/-! ### Integers that cannot be read -/

/-- The number of digits of a token, if it is an integer with more than can be read. -/
def Lexeme.excess? : Lexeme → Option Nat
  | value literal _ =>
    if !literal.toList.contains '.' && maxDigits < literal.length then some literal.length else none
  | _ => none

/-- Whether a check comes to a position of its text. -/
def comesTo (checked : Except Overflow Check) (position : Nat) : Bool :=
  match checked with
  | .error overflow => position < overflow.position
  | .ok _ => true

/-- The number of digits of the first integer that a check comes to and that cannot be read. -/
def tooLong? (checked : Except Overflow Check) (text : String) : Option Nat :=
  (Scan.ofText text).tokens.findSome? fun token =>
    if comesTo checked token.position then token.lexeme.excess? else none

end Formulary
