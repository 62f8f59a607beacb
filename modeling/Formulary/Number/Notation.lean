/-
# How numbers are written

In canonical formulas a number is written without an exponent: an integer, and a double that is a
whole number, by all its digits, every other double in positional notation by the shortest digits
that read back. As a literal a double always shows that it is one: positional with at least one
place behind the point for decimal exponents from -4 to 15, and with an exponent of at least two
digits beyond.

Key definitions: `Number.text`, `Double.literal`, `Decimal.positional`, `Decimal.scientific`.
-/
import Formulary.Number.Basic
import Formulary.Number.Shortest

namespace Formulary

/-- The decimal digits of a number. -/
def naturalText (n : Nat) : List Char :=
  Nat.toDigits 10 n

/-- A sign in front of a negative number. -/
def signed (negative : Bool) (cs : List Char) : List Char :=
  if negative then '-' :: cs else cs

/-- An integer in decimal. -/
def integerText (n : Int) : List Char :=
  signed (n < 0) (naturalText n.natAbs)

namespace Decimal

/-- The number of digits before the decimal point; not positive if the number is below one. -/
def pointPlace (d : Decimal) : Int :=
  (naturalText d.digits).length + d.exponent

/-- The digits before the point and those behind it. -/
def parts (d : Decimal) : List Char × List Char :=
  let digits := naturalText d.digits
  let point := d.pointPlace
  if point ≤ 0 then (['0'], digits.leftpad (digits.length + (-point).toNat) '0')
  else ((digits ++ List.replicate d.exponent.toNat '0').take point.toNat, digits.drop point.toNat)

/-- The number in positional notation; a whole number ends with `tail`. -/
def positional (tail : List Char) (d : Decimal) : List Char :=
  let (whole, fraction) := d.parts
  if fraction.isEmpty then whole ++ tail else whole ++ '.' :: fraction

/-- An exponent with its sign and at least two digits. -/
def exponentText (e : Int) : List Char :=
  (if e < 0 then '-' else '+') :: (naturalText e.natAbs).leftpad 2 '0'

/-- The number with one digit before the point, and an exponent. -/
def scientific (d : Decimal) : List Char :=
  let mantissa :=
    match naturalText d.digits with
    | first :: [] => [first]
    | first :: rest => first :: '.' :: rest
    | [] => []
  mantissa ++ 'e' :: exponentText (d.pointPlace - 1)

end Decimal

/-- A double as a literal that reads back as the same double. -/
def Double.literal : Double → List Char
  | .nan => "nan".toList
  | .infinite negative => signed negative "inf".toList
  | .finite negative m =>
    let d := m.shortest
    signed negative <|
      if m.units = 0 || (-4 < d.pointPlace && d.pointPlace ≤ 16) then d.positional ['.', '0']
      else d.scientific

/-- A double in a canonical formula; a zero has no sign. -/
def Double.text : Double → List Char
  | .nan => "NaN".toList
  | .infinite negative => signed negative "Infinity".toList
  | .finite negative m =>
    if m.isWhole then signed (negative && m.units ≠ 0) (naturalText m.floor)
    else signed negative (m.shortest.positional [])

/-- A number in a canonical formula. -/
def Number.text : Number → List Char
  | .integer n => integerText n
  | .real d => d.text

/-- The text of a value that may be missing: a missing one is written as zero. -/
def numberText : Option Number → List Char
  | some n => n.text
  | none => ['0']

end Formulary
