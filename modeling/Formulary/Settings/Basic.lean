/-
# Settings

What can be set about the program: where it runs, what it logs and how, how deeply parentheses may
be nested in a formula, and what is written for an attribute that the catalog does not have.

Key definitions: `Settings`, `LogLevel`, `Environment`, `LogFormat`.
-/

namespace Formulary

/-- Where the program runs. -/
inductive Environment
  | development
  | production
  | testing
deriving DecidableEq, Repr

namespace Environment

/-- The name of an environment. -/
def name : Environment → String
  | development => "development"
  | production => "production"
  | testing => "testing"

/-- The environment with the given name. -/
def ofName? (word : String) : Option Environment :=
  [development, production, testing].find? (·.name = word)

end Environment

/-- How urgent a log entry is, and from where on entries are written. -/
inductive LogLevel
  | debug
  | info
  | warning
  | error
  | critical
deriving DecidableEq, Repr

namespace LogLevel

/-- All levels, the least urgent first. -/
def all : List LogLevel :=
  [debug, info, warning, error, critical]

/-- The name of a level in settings. -/
def name : LogLevel → String
  | debug => "DEBUG"
  | info => "INFO"
  | warning => "WARNING"
  | error => "ERROR"
  | critical => "CRITICAL"

/-- The name of a level in log entries. -/
def tag : LogLevel → String
  | debug => "debug"
  | info => "info"
  | warning => "warning"
  | error => "error"
  | critical => "critical"

/-- The urgency of a level. -/
def rank : LogLevel → Nat
  | debug => 10
  | info => 20
  | warning => 30
  | error => 40
  | critical => 50

/-- The level with the given name. -/
def ofName? (word : String) : Option LogLevel :=
  all.find? (·.name = word)

end LogLevel

/-- How log entries are written. -/
inductive LogFormat
  | json
  | console
deriving DecidableEq, Repr

namespace LogFormat

/-- The name of a format. -/
def name : LogFormat → String
  | json => "json"
  | console => "console"

/-- The format with the given name. -/
def ofName? (word : String) : Option LogFormat :=
  [json, console].find? (·.name = word)

end LogFormat

/-- The least limit for the nesting of parentheses. -/
def minNestingDepth : Int := 1

/-- The greatest limit for the nesting of parentheses. -/
def maxNestingDepth : Int := 1024

/-- The settings of the program. -/
structure Settings where
  appName : String
  appVersion : String
  environment : Environment
  debug : Bool
  logLevel : LogLevel
  logFormat : LogFormat
  /-- The deepest nesting of parentheses that a formula may have. -/
  nestingLimit : Int
  /-- What is written for a reference that the catalog does not have. -/
  placeholder : String
deriving DecidableEq, Repr

namespace Settings

/-- Whether the program runs in production. -/
def isProduction (s : Settings) : Bool :=
  s.environment = .production

/-- Whether the program runs in development. -/
def isDevelopment (s : Settings) : Bool :=
  s.environment = .development

/-- Whether the program runs in testing. -/
def isTesting (s : Settings) : Bool :=
  s.environment = .testing

/-- Whether log entries are written as JSON; in development they are written for the console. -/
def logsJson (s : Settings) : Bool :=
  !s.isDevelopment && s.logFormat = .json

end Settings
end Formulary
