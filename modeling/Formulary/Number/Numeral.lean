/-
# Plain numerals

A plain numeral is a run of decimal digits, of any script and even of several, with at most one
decimal point before, between or behind them. It denotes a number that is not negative: an integer
if there is no point, and otherwise the nearest double.

An integer is read from its digits only up to a number of them, zeros in front included. No numeral of a
double is limited so.

Key definitions: `Numeral`, `Numeral.ofText?`, `Numeral.toNumber?`, `maxDigits`.
-/
import Formulary.Number.Basic
import Formulary.Text.Digit

namespace Formulary

/-- The most digits that an integer may be read from. -/
def maxDigits : Nat := 4300

/-- A plain numeral: all its digits as one number, and how many of them follow the point, if there
is a point. -/
structure Numeral where
  digits : Nat
  places : Option Nat
deriving DecidableEq

namespace Numeral

/-- The value of digits read after `sofar`, unless some character is no decimal digit. -/
def readDigits? : Nat → List Char → Option Nat
  | sofar, [] => some sofar
  | sofar, c :: cs => do readDigits? (sofar * 10 + (← Text.decimalValue? c)) cs

/-- The numeral that a text is, if it is one. -/
def ofText? (cs : List Char) : Option Numeral :=
  let whole := cs.takeWhile (· ≠ '.')
  match cs.dropWhile (· ≠ '.') with
  | [] => if whole.isEmpty then none else (readDigits? 0 whole).map (⟨·, none⟩)
  | _ :: fraction =>
    if (whole ++ fraction).isEmpty then none
    else (readDigits? 0 (whole ++ fraction)).map (⟨·, some fraction.length⟩)

/-- The exponent of ten that goes with the digits. -/
def exponent (n : Numeral) : Int :=
  -(n.places.getD 0)

/-- The magnitude nearest to the numeral, unless it is out of the range of finite doubles. -/
def magnitude? (n : Numeral) : Option Magnitude :=
  Magnitude.ofDecimal? n.digits n.exponent

/-- The number that a numeral denotes, unless its value is out of the range of finite doubles. -/
def toNumber? (n : Numeral) : Option Number :=
  n.magnitude?.map fun m =>
    match n.places with
    | none => .integer n.digits
    | some _ => .real (.finite false m)

end Numeral
end Formulary
