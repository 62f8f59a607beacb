/-
# What the program runs on

The program leaves to others how arguments are taken apart, how settings are loaded, how a JSON value
gives attributes, how a text is put out, and how a fault of an argument is told. All this is a platform,
and the program is the same on each. A platform also tells where its stack would run over, since a check
and the reading of a file go as deep as what they are given.

What is documented of a platform, and relied upon, is `Platform.Documented`: a text comes out as it is
unless there is an escape character in it, a fault of an argument ends with exit code 2 and nothing on the
standard output, and settings that are loaded keep the bounds of their limit.

Key definitions: `Surroundings`, `Outcome`, `Command.Request`, `Platform`, `Platform.Documented`.
-/
import Formulary.Catalog.Basic
import Formulary.Json.Basic
import Formulary.Number.Numeral
import Formulary.Rejection
import Formulary.Settings.Basic

namespace Formulary

/-- What a path leads to. -/
inductive PathTarget
  | nothing
  | directory
  /-- A file with its bytes. -/
  | bytes (content : ByteArray)

/-- A file that holds a text. -/
def PathTarget.file (text : String) : PathTarget :=
  .bytes text.toUTF8

/-- What a run can see of the world around it. -/
structure Surroundings where
  /-- The variables of the environment. -/
  environment : List (String × String)
  /-- The text of the settings file, if there is one. -/
  settingsFile : Option String
  /-- What each path leads to. -/
  target : String → PathTarget

/-- What ends a run that nothing in the program is ready for. -/
inductive Breakdown
  /-- An integer has this many digits, which are more than can be read. -/
  | longInteger (digits : Nat)
  /-- The stack ran over. -/
  | overrun
  /-- A path does not lead to a file. -/
  | unreadable
deriving DecidableEq, Repr

/-- The message for a breakdown. -/
def Breakdown.text : Breakdown → String
  | longInteger digits =>
    "an integer has " ++ toString digits ++ " digits, and no more than " ++ toString maxDigits ++
      " can be read"
  | overrun => "the stack ran over"
  | unreadable => "a path does not lead to a file"

/-- How a run ends. -/
structure Outcome where
  exitCode : Nat
  /-- The text on the standard output. -/
  output : String
  /-- The error message, if there is one, as it stands behind the word for an error. -/
  error : Option String
  /-- The log entries, if they are written as JSON. -/
  log : List Json
  /-- The faults of the settings, if they are rejected. -/
  rejected : Option (List Rejection)
  /-- What the run broke down on, if it did. -/
  breakdown : Option Breakdown

namespace Outcome

/-- A run that ends well. -/
def success (output : String) : Outcome :=
  ⟨0, output, none, [], none, none⟩

/-- A run that ends because settings are rejected. -/
def unset (faults : List Rejection) : Outcome :=
  ⟨1, "", none, [], some faults, none⟩

/-- A run that breaks down, with what it has logged before. -/
def broken (log : List Json) (breakdown : Breakdown) : Outcome :=
  ⟨1, "", none, log, none, some breakdown⟩

end Outcome

namespace Command

/-- The commands of the program. -/
inductive Name
  | check
  | functions
  | info
deriving DecidableEq, Repr

/-- What a run of `check` is asked for. -/
structure Request where
  formula : String
  /-- The values of `--attr`, in their order. -/
  declarations : List String
  /-- The value of `--catalog`, if there is one. -/
  path : Option String

end Command

/-- What the program runs on. -/
structure Platform where
  /-- The log level, the command and the arguments behind it; or how the program ends before it comes to
  a command. -/
  program : List String → Except Outcome (Option LogLevel × Command.Name × List String)
  /-- What the arguments of `check` ask for, where paths lead to what is told; or how the run ends. -/
  request : (String → PathTarget) → List String → Except Outcome Command.Request
  /-- How a run ends whose command has no arguments of its own, unless it may go on. -/
  plain : List String → Except Outcome Unit
  /-- The settings, or what is wrong with them. -/
  settings : Surroundings → Except (List Rejection) Settings
  /-- The attributes that a JSON value stands for, or what is wrong with it. -/
  attributes : Json → Except (List Rejection) Catalog
  /-- A text as it comes out, without the line feed behind it. -/
  echo : String → String
  /-- How a run ends because of a value of an argument, with a message about it. -/
  badParameter : String → Outcome
  /-- Whether the stack runs over while a file is read. -/
  fileOverruns : ByteArray → Bool
  /-- Whether the stack runs over while a formula is checked. -/
  formulaOverruns : Settings → String → Bool

end Formulary
