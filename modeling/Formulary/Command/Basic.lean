/-
# The standard platform

The program as it is run: the arguments are taken apart by the tables of options, the settings come from
variables and a settings file, and what is written holds no terminal codes, even if a name in a formula
has them. Its stack never runs over.

An unknown command is reported before the settings are loaded, and all faults of a command's own arguments
after that. A path is followed as soon as the arguments are split, before the formula is looked for.

Key definitions: `Command.readProgram`, `Command.readRequest`, `Platform.standard`, `Command.run`.
-/
import Formulary.Command.Arguments
import Formulary.Command.Program
import Formulary.Settings.Load
import Formulary.Text.Terminal

namespace Formulary

namespace Outcome

/-- A run that ends with an error message without terminal codes. -/
def failure (message : String) : Outcome :=
  ⟨2, "", some (Text.withoutCodes message), [], none, none⟩

/-- A run that ends because of its arguments. -/
def misuse (e : UsageError) : Outcome :=
  failure e.message

end Outcome

namespace Command

/-- The options of the program. -/
def programOptions : OptionTable :=
  ⟨[("--help", .flag), ("--log-level", .valued), ("--version", .flag)], false⟩

/-- The options of `check`. -/
def checkOptions : OptionTable :=
  ⟨[("--attr", .valued), ("--catalog", .valued), ("--help", .flag)], true⟩

/-- The options of the other commands. -/
def plainOptions : OptionTable :=
  ⟨[("--help", .flag)], true⟩

/-- The version of the program. -/
def versionLine : String :=
  "FormulaBase, version 0.1.0"

/-! ### The arguments of the commands -/

/-- A path, if it leads to a file. -/
def filePath (target : String → PathTarget) (path : String) : Except UsageError String :=
  match target path with
  | .nothing => .error (.noSuchFile path)
  | .directory => .error (.isDirectory path)
  | .bytes _ => .ok path

/-- The one argument of `check`. -/
def formulaOf : List String → Except UsageError String
  | [] => .error .missingFormula
  | [formula] => .ok formula
  | _ :: rest => .error (.extraArguments rest)

/-- What the arguments of `check` ask for, or how the run ends. -/
def readRequest (target : String → PathTarget) (arguments : List String) : Except Outcome Request :=
  match checkOptions.split arguments with
  | .error e => .error (.misuse e)
  | .ok split =>
    if (split.last? "--help").isSome then .error (.success "")
    else
      match (split.last? "--catalog").mapM (filePath target) with
      | .error e => .error (.misuse e)
      | .ok path =>
        match formulaOf split.rest with
        | .error e => .error (.misuse e)
        | .ok formula => .ok ⟨formula, split.allOf "--attr", path⟩

/-- How a run ends whose command has no arguments of its own, unless it may go on. -/
def readPlain (arguments : List String) : Except Outcome Unit :=
  match plainOptions.split arguments with
  | .error e => .error (.misuse e)
  | .ok split =>
    if (split.last? "--help").isSome then .error (.success "")
    else if split.rest.isEmpty then .ok ()
    else .error (.misuse (.extraArguments split.rest))

/-! ### The arguments of the program -/

/-- The commands by their names, in alphabetical order. -/
def names : List (String × Name) :=
  [("check", .check), ("functions", .functions), ("info", .info)]

/-- The log level among the options of the program. -/
def levelOf (split : Arguments) : Except UsageError (Option LogLevel) :=
  match split.last? "--log-level" with
  | none => .ok none
  | some word =>
    match LogLevel.ofName? word with
    | some level => .ok (some level)
    | none => .error (.badLevel word)

/-- What the options that end the program at once put out. -/
def immediateOutput (split : Arguments) : Option String :=
  (split.options.find? fun (name, _) => name = "--version" || name = "--help").map fun (name, _) =>
    if name = "--version" then Text.withoutCodes versionLine ++ "\n" else ""

/-- The options of the program, the log level among them, and the other arguments; or how the
program ends before it comes to a command. -/
def readProgramOptions (arguments : List String) :
    Except Outcome (Option LogLevel × List String) :=
  match programOptions.split arguments with
  | .error e => .error (.misuse e)
  | .ok split =>
    match immediateOutput split with
    | some output => .error (.success output)
    | none =>
      match levelOf split with
      | .error e => .error (.misuse e)
      | .ok level => .ok (level, split.rest)

/-- How the program ends when no command has a name. -/
def noSuchCommand (name : String) : Outcome :=
  .misuse (.noSuchCommand name (Text.similarWords (names.map (·.1)) name))

/-- How the program ends when a command is not known. A name that is written like an option, which
two dashes let through, is read as one once more. -/
def unknownCommand (name : String) (arguments : List String) : Outcome :=
  if looksLikeOption name then
    match readProgramOptions (name :: arguments) with
    | .error outcome => outcome
    | .ok _ => noSuchCommand name
  else noSuchCommand name

/-- The log level, the command and the arguments behind it; or how the program ends before it comes to
a command. -/
def readProgram (arguments : List String) : Except Outcome (Option LogLevel × Name × List String) :=
  if arguments.isEmpty then .error ⟨2, "", none, [], none, none⟩
  else
    match readProgramOptions arguments with
    | .error outcome => .error outcome
    | .ok (_, []) => .error (.misuse .missingCommand)
    | .ok (level, name :: rest) =>
      match names.lookup name with
      | some command => .ok (level, command, rest)
      | none => .error (unknownCommand name rest)

end Command

/-- The standard platform. -/
def Platform.standard : Platform where
  program := Command.readProgram
  request := Command.readRequest
  plain := Command.readPlain
  settings around := Settings.load around.environment around.settingsFile
  attributes := Catalog.ofJson
  echo := Text.withoutCodes
  badParameter message := .failure ("Invalid value: " ++ message)
  fileOverruns _ := false
  formulaOverruns _ _ := false

namespace Command

/-- The attributes in the text of a catalog file, if there is one, or an error message. -/
def fileAttributes (file : Option String) : Except String Catalog :=
  attributesIn Catalog.ofJson file

/-- Runs the program on the standard platform. -/
def run (around : Surroundings) (arguments : List String) : Outcome :=
  Platform.standard.run around arguments

end Command
end Formulary
