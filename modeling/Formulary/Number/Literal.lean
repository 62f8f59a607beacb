/-
# Number literals

Outside formulas numbers are written more freely than in them: with blanks around them, a sign,
single underscores between digits and, for doubles, an exponent or one of the words for infinity
and for "not a number" in any case. A literal with a decimal point is a double and any other is an
integer.

Key definitions: `Number.ofLiteral`, `Double.ofText?`, `Number.LiteralError`.
-/
import Formulary.Number.Numeral
import Formulary.Text.Blank
import Formulary.Text.Quoted
import Formulary.Text.Trim

namespace Formulary

/-- A text without its underscores, if each of them stands between two decimal digits. -/
def withoutUnderscores? : List Char → Option (List Char)
  | [] => some []
  | [c] => if c = '_' then none else some [c]
  | '_' :: _ => none
  | c :: '_' :: rest =>
    match rest with
    | d :: _ =>
      if (Text.decimalValue? c).isSome && (Text.decimalValue? d).isSome then
        (withoutUnderscores? rest).map (c :: ·)
      else none
    | [] => none
  | c :: rest => (withoutUnderscores? rest).map (c :: ·)

/-- Whether a text starts with a minus sign, and the text behind its sign. -/
def splitSign : List Char → Bool × List Char
  | '-' :: rest => (true, rest)
  | '+' :: rest => (false, rest)
  | rest => (false, rest)

/-- An integer of decimal digits behind an optional sign. -/
def readSigned? (cs : List Char) : Option Int := do
  let (negative, digits) := splitSign cs
  if digits.isEmpty then none
  else
    let n ← Numeral.readDigits? 0 digits
    return if negative then -(n : Int) else n

/-- An integer from a literal. -/
def integerOfText? (cs : List Char) : Option Int :=
  (withoutUnderscores? (Text.trimBy Text.isWhiteSpace cs)).bind readSigned?

/-- The doubles that are written as words. -/
def Double.ofWord? (negative : Bool) (cs : List Char) : Option Double :=
  match String.ofList (cs.map Char.toLower) with
  | "inf" | "infinity" => some (.infinite negative)
  | "nan" => some .nan
  | _ => none

/-- The text before the exponent mark, and the exponent behind it, if there is a mark. -/
def splitExponent? (cs : List Char) : Option (List Char × Int) :=
  let mantissa := cs.takeWhile fun c => c ≠ 'e' && c ≠ 'E'
  match cs.dropWhile fun c => c ≠ 'e' && c ≠ 'E' with
  | [] => some (mantissa, 0)
  | _ :: exponent => (readSigned? exponent).map (mantissa, ·)

/-- The double of a numeral and an exponent. An exponent further from zero than four hundred places
more than the numeral has digits makes the value infinite or zero whatever it is, and is cut back
to there. -/
def Double.ofNumeral (negative : Bool) (numeral : Numeral) (length : Nat) (exponent : Int) :
    Double :=
  let reach : Int := length + 400
  .ofDecimal negative numeral.digits (max (-reach) (min reach exponent) + numeral.exponent)

/-- A double from a literal. -/
def Double.ofText? (cs : List Char) : Option Double := do
  let (negative, unsigned) := splitSign (← withoutUnderscores? (Text.trimBy Text.isWhiteSpace cs))
  match Double.ofWord? negative unsigned with
  | some d => return d
  | none =>
    let (mantissa, exponent) ← splitExponent? unsigned
    let numeral ← Numeral.ofText? mantissa
    return .ofNumeral negative numeral mantissa.length exponent

namespace Number

/-- A text that is no literal of the kind that it was read as. -/
inductive LiteralError
  | integer (text : String)
  | real (text : String)
deriving DecidableEq

/-- The message of an error; an integer is quoted up to two hundred characters. -/
def LiteralError.message : LiteralError → String
  | .integer text =>
    "invalid literal for int() with base 10: " ++
      String.ofList ((Text.quoted text.toList).take 200)
  | .real text =>
    "could not convert string to float: " ++ String.ofList (Text.quoted text.toList)

/-- The number that a literal denotes: a double if it holds a decimal point, else an integer. -/
def ofLiteral (text : String) : Except LiteralError Number :=
  if text.toList.contains '.' then
    match Double.ofText? text.toList with
    | some d => .ok (.real d)
    | none => .error (.real text)
  else
    match integerOfText? text.toList with
    | some n => .ok (.integer n)
    | none => .error (.integer text)

end Number
end Formulary
