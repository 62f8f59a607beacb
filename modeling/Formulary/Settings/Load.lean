/-
# Loading settings

Settings come from the variables of the environment and from a settings file, under names that start
with `FORMULABASE_`, in any case of letters. A variable of the environment counts before one of the
file, and of several with one name the last counts. A variable that is empty is given; one that is
not given, or is assigned no value, leaves the default.

Words are taken as they are written, except that log levels may be written in any case and words for
true and false, too. Every value that cannot be taken is reported.

Key definitions: `Settings.load`, `Settings.integerOf?`, `Settings.booleanOf?`.
-/
import Formulary.Number.Numeral
import Formulary.Rejection
import Formulary.Settings.Basic
import Formulary.Settings.Variables
import Formulary.Text.Trim

namespace Formulary
namespace Settings

/-- The words for true and false, in lower case. -/
def booleanWords : List (String × Bool) := [
  ("true", true), ("1", true), ("yes", true), ("on", true), ("t", true), ("y", true),
  ("false", false), ("0", false), ("no", false), ("off", false), ("f", false), ("n", false)]

/-- A text in lower case, as far as its letters are ASCII. -/
def lowered (s : String) : String :=
  String.ofList (s.toList.map Char.toLower)

/-- A letter in upper case. Beyond ASCII only the dotless i and the long s have a single ASCII letter
as their upper case. -/
def raisedChar (c : Char) : Char :=
  if c = 'ı' then 'I' else if c = 'ſ' then 'S' else c.toUpper

/-- A text in upper case. -/
def raised (s : String) : String :=
  String.ofList (s.toList.map raisedChar)

/-- The truth value that a word stands for. -/
def booleanOf? (s : String) : Option Bool :=
  booleanWords.lookup (lowered s)

/-- An integer of ASCII digits behind an optional minus sign, without zeros in front. -/
def plainInteger? (cs : List Char) : Option Int :=
  let (negative, digits) :=
    match cs with
    | '-' :: rest => (true, rest)
    | _ => (false, cs)
  let leads := digits.head? = some '0' && digits.length > 1
  if digits.isEmpty || leads || !digits.all Char.isDigit then none
  else
    (Numeral.readDigits? 0 digits).map fun n => if negative then -(n : Int) else n

/-- The digits of a number from the first that is no zero on, given the character before them.
Underscores count as zeros here. One character stays if nothing else follows, or a point. -/
def behindZeros? : Char → List Char → Option (List Char)
  | before, [] => some [before]
  | before, c :: rest =>
    if c = '0' || c = '_' then behindZeros? c rest
    else if c = '.' then some (before :: c :: rest)
    else if c.isDigit || c = '-' then some (c :: rest)
    else none

/-- A number without the zeros in front of it. -/
def withoutLeadingZeros? : List Char → Option (List Char)
  | '0' :: rest => behindZeros? '0' rest
  | c :: rest => if c.isDigit || c = '-' then some (c :: rest) else none
  | [] => none

/-- A number without a fraction that consists of zeros. -/
def withoutZeroFraction (cs : List Char) : List Char :=
  match cs.dropWhile (· ≠ '.') with
  | _ :: '0' :: fraction => if fraction.all (· = '0') then cs.takeWhile (· ≠ '.') else cs
  | _ => cs

/-- Whether underscores stand side by side. -/
def hasDoubleUnderscore : List Char → Bool
  | '_' :: '_' :: _ => true
  | _ :: rest => hasDoubleUnderscore rest
  | [] => false

/-- A number without underscores, if each of them stands alone and between two characters. -/
def withoutUnderscores (cs : List Char) : List Char :=
  if cs.head? = some '_' || cs.getLast? = some '_' || hasDoubleUnderscore cs then cs
  else cs.filter (· ≠ '_')

/-- The digits of an integer without zeros in front, a fraction of zeros and underscores. -/
def tidyDigits? (cs : List Char) : Option (List Char) :=
  (withoutLeadingZeros? cs).map fun digits => withoutUnderscores (withoutZeroFraction digits)

/-- A plain integer from one with a plus sign, zeros in front, a fraction of zeros or underscores. -/
def tidied? : List Char → Option (List Char)
  | '-' :: cs => (tidyDigits? cs).map ('-' :: ·)
  | '+' :: '-' :: _ => none
  | '+' :: cs => tidyDigits? cs
  | cs => tidyDigits? cs

/-- The integer that a value stands for. -/
def integerOf? (s : String) : Option Int :=
  let cs := Text.trimBy Text.isWhiteSpace s.toList
  (plainInteger? cs).or ((tidied? cs).bind plainInteger?)

/-- The name of the variable for a field. -/
def variableName (field : String) : String :=
  "formulabase_" ++ field

/-- The value of the last variable for a field, whatever the case of its name. -/
def valueOf? {α : Type} (assigned : List (String × α)) (field : String) : Option α :=
  (assigned.reverse.find? fun (name, _) => lowered name = variableName field).map (·.2)

/-- The value given for a field by variables of the environment or, if there is none, of a settings
file. -/
def givenValue? (environment : List (String × String)) (file : Variables) (field : String) :
    Option String :=
  (valueOf? environment field).or ((valueOf? file field).bind id)

/-- A field that has a default and is read from a word. -/
def fieldOf {α : Type} (given : Option String) (default : α) (reason : Rejection.Reason)
    (read : String → Option α) : Except Rejection.Reason α :=
  match given with
  | none => .ok default
  | some word =>
    match read word with
    | some value => .ok value
    | none => .error reason

/-- The limit for the nesting. -/
def limitOf (given : Option String) : Except Rejection.Reason Int := do
  let n ← fieldOf given 64 .notInteger integerOf?
  if n < minNestingDepth then .error .tooSmall
  else if maxNestingDepth < n then .error .tooLarge
  else return n

/-- What is wrong with a field. -/
def faultOf {α : Type} (field : String) : Except Rejection.Reason α → List Rejection
  | .ok _ => []
  | .error reason => [⟨[.field field], reason⟩]

/-- The settings given by variables of the environment and by a settings file, if there is one. -/
def load (environment : List (String × String)) (file : Option String) :
    Except (List Rejection) Settings :=
  let given := givenValue? environment ((file.map (Variables.ofFile environment)).getD [])
  let place := fieldOf (given "environment") .development .otherWord Environment.ofName?
  let debug := fieldOf (given "debug") false .notBoolean booleanOf?
  let level := fieldOf (given "log_level") .info .otherWord fun s => LogLevel.ofName? (raised s)
  let format := fieldOf (given "log_format") .json .otherWord LogFormat.ofName?
  let limit := limitOf (given "max_nesting_depth")
  match place, debug, level, format, limit with
  | .ok environment, .ok debug, .ok logLevel, .ok logFormat, .ok nestingLimit =>
    .ok {
      appName := (given "app_name").getD "FormulaBase"
      appVersion := (given "app_version").getD "0.1.0"
      environment, debug, logLevel, logFormat, nestingLimit
      placeholder := (given "unresolved_attribute_placeholder").getD "\x7battribute\x7d" }
  | _, _, _, _, _ =>
    .error (faultOf "environment" place ++ faultOf "debug" debug ++ faultOf "log_level" level ++
      faultOf "log_format" format ++ faultOf "max_nesting_depth" limit)

end Settings
end Formulary
