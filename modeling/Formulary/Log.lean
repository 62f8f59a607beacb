/-
# Log entries

A log entry is an object with the name of the logger, the level, a message, and the fields of the
event. The message comes from the event under the name `event` and goes out under the name
`message`; an older field of that name gives way to it.

Key definitions: `Event`, `Event.toJson`, `finishEntry`.
-/
import Formulary.Json.Basic
import Formulary.Settings.Basic

namespace Formulary

/-- The fields of an entry. -/
abbrev Fields := List (String × Json)

/-- The fields with one of them set: in its place if it is there, and at the end otherwise. -/
def setField (name : String) (value : Json) : Fields → Fields
  | [] => [(name, value)]
  | (key, old) :: rest =>
    if key = name then (key, value) :: rest else (key, old) :: setField name value rest

/-- The name of a logger that has no name of its own. -/
def defaultLogger : String := "formulabase"

/-- The fields with the name of the logger. -/
def addLogger (logger : Option String) (fields : Fields) : Fields :=
  setField "logger" (.string (logger.getD defaultLogger)) fields

/-- The fields with the event under the name of a message. -/
def renameEvent (fields : Fields) : Fields :=
  match fields.lookup "event" with
  | none => fields
  | some event => setField "message" event (fields.filter (·.1 ≠ "event"))

/-- The entry for the fields of an event. -/
def finishEntry (logger : Option String) (fields : Fields) : Fields :=
  renameEvent (addLogger logger fields)

/-- Something that is logged. -/
structure Event where
  level : LogLevel
  message : String
  fields : Fields

namespace Event

/-- The entry for an event that is logged while the text of a formula is checked. -/
def toJson (formula : String) (event : Event) : Json :=
  .object <| finishEntry none <|
    ("event", .string event.message) :: ("formula", .string formula) ::
      ("level", .string event.level.tag) :: event.fields

end Event

/-- The events from a level on. -/
def fromLevel (level : LogLevel) (events : List Event) : List Event :=
  events.filter fun event => level.rank ≤ event.level.rank

end Formulary
