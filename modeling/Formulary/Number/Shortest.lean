/-
# The shortest decimal that reads back

A double is written with the fewest decimal digits that round to it again, and of the numbers with
so few digits the one nearest to it is taken. For each count of digits, from one to seventeen, the
two neighbours of the double on the decimal grid of that many digits are tried: if any number of
the grid reads back, one of these two does. Of two that both do, the nearer is taken, and halfway
between them the even one. Behind the last grid stands the exact decimal expansion, which every
double has.

Key definitions: `Decimal`, `Magnitude.shortest`.
-/
import Formulary.Number.Double

namespace Formulary

/-! Powers of natural numbers are the plain ones, also where more general powers are at hand. -/
attribute [local instance (1100)] instPowNat

/-- The number `digits * 10 ^ exponent`. -/
structure Decimal where
  digits : Nat
  exponent : Int
deriving DecidableEq

/-- A number without its trailing zeros, at most `count` of them, and how many were taken off. -/
def stripZeros : Nat → Nat → Nat × Nat
  | 0, n => (n, 0)
  | count + 1, n =>
    if n % 10 = 0 then
      let (m, taken) := stripZeros count (n / 10)
      (m, taken + 1)
    else (n, 0)

/-- The same number, with the zeros at the end of its digits moved into the exponent. -/
def Decimal.normalized (d : Decimal) : Decimal :=
  if d.digits = 0 then ⟨0, 0⟩
  else
    let (m, taken) := stripZeros d.digits.log2 d.digits
    ⟨m, d.exponent + taken⟩

/-- Of the two natural numbers next to `n / d` the nearer, as far as they pass a test; halfway
between them the even one. -/
def nearestOf? (passes : Nat → Bool) (n d : Nat) : Option Nat :=
  match passes (n / d), passes (n / d + 1) with
  | true, true => some (roundDiv n d)
  | true, false => some (n / d)
  | false, true => some (n / d + 1)
  | false, false => none

namespace Magnitude

/-- The number of digits before the decimal point; of a number below one tenth, minus the number of
zeros behind the point. -/
def pointPlace (m : Magnitude) : Int :=
  (Nat.toDigits 10 (m.units * 10 ^ (400 : Nat) / one)).length - 400

/-- The magnitude as a multiple of `10 ^ place`: numerator and denominator. -/
def ratioAt (m : Magnitude) (place : Int) : Nat × Nat :=
  (m.units * 10 ^ (-place).toNat, one * 10 ^ place.toNat)

/-- Whether `digits * 10 ^ place` rounds to the magnitude. -/
def readsBack (m : Magnitude) (digits : Nat) (place : Int) : Bool :=
  ofDecimal? digits place = some m

/-- The nearer of the two neighbours of the magnitude among the multiples of `10 ^ place`, as far
as they read back. -/
def neighbour? (m : Magnitude) (place : Int) : Option Decimal :=
  (nearestOf? (m.readsBack · place) (m.ratioAt place).1 (m.ratioAt place).2).map (⟨·, place⟩)

/-- The magnitude in decimal without rounding: a unit is `5 ^ 1074 * 10 ^ -1074`. -/
def expansion (m : Magnitude) : Decimal :=
  ⟨m.units * 5 ^ unitBits, -unitBits⟩

/-- The shortest decimal that reads back as the magnitude. -/
def shortest (m : Magnitude) : Decimal :=
  if m.units = 0 then ⟨0, 0⟩
  else
    let grids := (List.range 17).map fun k => m.pointPlace - (k + 1 : Nat)
    ((grids.findSome? m.neighbour?).getD m.expansion).normalized

end Magnitude
end Formulary
