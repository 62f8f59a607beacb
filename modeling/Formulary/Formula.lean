/-
# Reading a formula

A formula is read from its text under a limit for the nesting of parentheses. Nothing that the text
holds makes reading fail, except nesting beyond the limit; all else is dropped or repaired, and the
diagnostics tell what and where, in the order of the text.

Key definitions: `Formula`, `Formula.read`, `Formula.store`.
-/
import Formulary.Sorting
import Formulary.Term.Nodes
import Formulary.Term.Reading
import Formulary.Token.Scan

namespace Formulary

/-- A formula that was read from a text. -/
structure Formula where
  scan : Scan
  terms : List Term
  /-- What was noted while the tokens were put together. -/
  notes : List Diagnostic

namespace Formula

/-- Reads a formula. -/
def read (limit : Int) (catalog : Catalog) (text : String) : Except Overflow Formula := do
  let all := Scan.ofText text
  let (terms, notes) ← readTerms limit catalog all.tokens
  return ⟨all, terms, notes⟩

/-- All diagnostics, in the order of their positions. -/
def diagnostics (formula : Formula) : List Diagnostic :=
  sortBy (fun a b => a.position ≤ b.position) (formula.scan.diagnostics ++ formula.notes)

/-- The nodes of the formula, where `k` identifiers are issued already. -/
def store (formula : Formula) (k : Nat) : Store :=
  .ofTerms k formula.terms

end Formula
end Formulary
