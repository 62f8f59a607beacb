/-
# Numbers of a formula

A number is an integer of any size or a double. Which of the two a literal denotes is decided by
its decimal point alone, and the two kinds are kept apart to the end: `2` and `2.0` are equal in
value, and are different numbers.

Key definition: `Number`.
-/
import Formulary.Number.Double

namespace Formulary

/-- A number in a formula. -/
inductive Number
  | integer (value : Int)
  | real (value : Double)
deriving DecidableEq

end Formulary
