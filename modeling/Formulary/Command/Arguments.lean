/-
# Command line arguments

The program takes options and then a command with arguments of its own. An option is a word that
starts with two dashes; its value is the next argument, whatever that is, or stands behind an equals
sign in the same one. A word that starts with a single dash is taken for an option of one letter, of
which there are none. Two dashes alone end the options. The options of the program stand before the
command, while those of a command may also stand behind its arguments.

For an option or a command that is not known, those that are similar to it are suggested.

Key definitions: `OptionTable`, `Arguments`, `OptionTable.split`, `UsageError`.
-/
import Formulary.Catalog.Declaration
import Formulary.Settings.Basic
import Formulary.Text.Quoted
import Formulary.Text.Similar

namespace Formulary

/-- What is wrong with the arguments of the program. -/
inductive UsageError
  | noSuchOption (name : String) (similar : List String)
  /-- The option is the last argument and needs a value. -/
  | missingValue (name : String)
  /-- The option has a value and takes none. -/
  | unwantedValue (name : String)
  | missingFormula
  | extraArguments (arguments : List String)
  | missingCommand
  | noSuchCommand (name : String) (similar : List String)
  | badLevel (word : String)
  | noSuchFile (path : String)
  | isDirectory (path : String)
deriving DecidableEq, Repr

/-- A text in quotation marks. -/
def inQuotes (s : String) : String :=
  String.ofList (Text.quoted s.toList)

/-- The suggestion of words in place of one that is not known, as it follows the message. -/
def suggestion : List String → String
  | [] => ""
  | [word] => " Did you mean " ++ inQuotes word ++ "?"
  | words => " (Did you mean one of: " ++ ", ".intercalate (words.map inQuotes) ++ "?)"

namespace UsageError

/-- The message of an error. -/
def message : UsageError → String
  | noSuchOption name similar =>
    "No such option " ++ inQuotes name ++ "." ++ suggestion similar
  | missingValue name => "Option " ++ inQuotes name ++ " requires an argument."
  | unwantedValue name => "Option " ++ inQuotes name ++ " does not take a value."
  | missingFormula => "Missing argument 'FORMULA'."
  | extraArguments arguments =>
    "Got unexpected extra argument" ++ (if arguments.length = 1 then "" else "s") ++ " (" ++
      " ".intercalate arguments ++ ")"
  | missingCommand => "Missing command."
  | noSuchCommand name similar =>
    "No such command " ++ inQuotes name ++ "." ++ suggestion similar
  | badLevel word =>
    "Invalid value for '--log-level': " ++ inQuotes word ++ " is not one of " ++
      ", ".intercalate (LogLevel.all.map fun level => inQuotes level.name) ++ "."
  | noSuchFile path =>
    "Invalid value for '--catalog': File " ++ inQuotes path ++ " does not exist."
  | isDirectory path =>
    "Invalid value for '--catalog': File " ++ inQuotes path ++ " is a directory."

end UsageError

/-- What an option takes. -/
inductive OptionKind
  /-- The option takes a value. -/
  | valued
  /-- The option stands alone. -/
  | flag
deriving DecidableEq, Repr

/-- The options that are known at one place of the command line. -/
structure OptionTable where
  /-- The options in alphabetical order. -/
  options : List (String × OptionKind)
  /-- Whether options may stand behind other arguments. -/
  interspersed : Bool

/-- Arguments, split into options and others. -/
structure Arguments where
  /-- The options with their values, in the order in which they were given; those without a value
  have an empty one. -/
  options : List (String × String)
  /-- The other arguments. -/
  rest : List String

namespace Arguments

/-- Puts an option in front. -/
def withOption (name value : String) (a : Arguments) : Arguments :=
  { a with options := (name, value) :: a.options }

/-- Puts another argument in front. -/
def withArgument (argument : String) (a : Arguments) : Arguments :=
  { a with rest := argument :: a.rest }

/-- The last value of an option. -/
def last? (name : String) (a : Arguments) : Option String :=
  a.options.reverse.lookup name

/-- All values of an option. -/
def allOf (name : String) (a : Arguments) : List String :=
  (a.options.filter (·.1 = name)).map (·.2)

end Arguments

/-- Whether an argument is written like an option. -/
def looksLikeOption (argument : String) : Bool :=
  match argument.toList with
  | '-' :: _ :: _ => true
  | _ => false

namespace OptionTable

/-- The error for an option that is not known. One of a single dash is reported by its first letter,
and nothing is similar to it. -/
def unknown (table : OptionTable) (argument name : String) : UsageError :=
  match argument.toList with
  | '-' :: '-' :: _ => .noSuchOption name (Text.similarWords (table.options.map (·.1)) name)
  | cs => .noSuchOption (String.ofList (cs.take 2)) []

/-- Splits arguments into options and others. -/
def split (table : OptionTable) : List String → Except UsageError Arguments
  | [] => .ok ⟨[], []⟩
  | argument :: rest =>
    if argument = "--" then .ok ⟨[], rest⟩
    else if looksLikeOption argument then
      let (name, value) := splitAtEquals argument
      let given := argument.toList.contains '='
      match table.options.lookup name with
      | some .flag =>
        if given then .error (.unwantedValue name) else (split table rest).map (·.withOption name "")
      | some .valued =>
        if given then (split table rest).map (·.withOption name value)
        else
          match rest with
          | [] => .error (.missingValue name)
          | value :: rest => (split table rest).map (·.withOption name value)
      | none => .error (table.unknown argument name)
    else if table.interspersed then (split table rest).map (·.withArgument argument)
    else .ok ⟨[], argument :: rest⟩

end OptionTable
end Formulary
