/-
# The command line program

Hands the arguments, the environment, the settings file and the files that the arguments name to the
commands, and writes out what they answer. Everything is decided there.
-/
import Formulary.Command.Basic
import Formulary.Json.Printer

namespace Formulary
namespace Main

/-- The names of the variables that the settings are read from. -/
def variableNames : List String :=
  ["APP_NAME", "APP_VERSION", "ENVIRONMENT", "DEBUG", "LOG_LEVEL", "LOG_FORMAT",
    "MAX_NESTING_DEPTH", "UNRESOLVED_ATTRIBUTE_PLACEHOLDER"].map ("FORMULABASE_" ++ ·)

/-- The variables that are set, among those that matter for the settings file. -/
def environment (settingsFile : Option String) : IO (List (String × String)) := do
  let names := variableNames ++ (settingsFile.map referredNames).getD []
  let values ← names.mapM fun name => return (name, ← IO.getEnv name)
  return values.filterMap fun (name, value) => value.map (name, ·)

/-- The bytes of a file, if there is one that can be read. -/
def fileContent? (path : String) : IO (Option ByteArray) := do
  try return some (← IO.FS.readBinFile path)
  catch _ => return none

/-- What a path leads to. What can be opened and has no bytes is taken for a directory. -/
def target (path : String) : IO PathTarget := do
  match ← fileContent? path with
  | some content => return .bytes content
  | none =>
    try
      discard (IO.FS.Handle.mk path .read)
      return .directory
    catch _ => return .nothing

/-- What the arguments lead to, each taken as a path. -/
def targets (arguments : List String) : IO (List (String × PathTarget)) :=
  arguments.mapM fun path => return (path, ← target path)

end Main
end Formulary

open Formulary in
/-- Runs the program. -/
def main (arguments : List String) : IO UInt32 := do
  let paths ← Main.targets (arguments.flatMap fun a => [a, (splitAtEquals a).2])
  let settingsFile := (← Main.fileContent? ".env").bind String.fromUTF8?
  let around : Surroundings :=
    ⟨← Main.environment settingsFile, settingsFile, fun path => (paths.lookup path).getD .nothing⟩
  let outcome := Command.run around arguments
  IO.print outcome.output
  for entry in outcome.log do IO.eprintln entry.render
  if let some message := outcome.error then IO.eprintln ("Error: " ++ message)
  if let some breakdown := outcome.breakdown then IO.eprintln ("Error: " ++ breakdown.text)
  if let some faults := outcome.rejected then
    for fault in faults do
      IO.eprintln ("Error: the settings are invalid: " ++ fault.reason.code)
  return outcome.exitCode.toUInt32
