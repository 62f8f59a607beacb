/-
# The program

`check` checks a formula against a catalog, `functions` lists the functions, and `info` tells the
settings. A run ends with an exit code: 0 if all is well, 1 if the formula is not valid, 2 if the
arguments, the catalog or the formula cannot be taken.

Faults of the arguments come first as far as they can be seen before the command, then those of the
settings, then those of the command's own arguments. The catalog file comes before the declared
attributes, both when faults are looked for and in the catalog.

The platform decides what arguments, settings and JSON values come to and how a text is put out. A run
breaks down, with exit code 1 and nothing on the standard output, where the settings are rejected, the
stack runs over, or an integer of the formula has more digits than can be read.

Key definitions: `Platform.checkFormula`, `Platform.check`, `Platform.run`.
-/
import Formulary.Catalog.Declaration
import Formulary.Catalog.File
import Formulary.Check.Events
import Formulary.Command.Platform

namespace Formulary
namespace Command

/-! ### The report of a check -/

/-- The lines that report a check, without the verdict. -/
def reportLines (check : Check) : List String :=
  ["Formula:  " ++ check.canonical, "Type:     " ++ check.types.type.name] ++
    check.diagnostics.map (fun d => "Warning:  " ++ d.text) ++
    check.shape.issues.map (fun issue => "Error:    " ++ issue.message) ++
    check.shape.broken.map (fun c => "Broken:   " ++ c.before ++ " -> " ++ c.after) ++
    check.types.issues.map (fun issue => "Error:    " ++ issue.message)

/-- All lines that report a check; the last one says so if the formula is valid. -/
def verdictLines (check : Check) : List String :=
  reportLines check ++ if check.isValid then ["OK"] else []

/-- The log entries for the events of a check, if they are written as JSON. -/
def entries (settings : Settings) (level : LogLevel) (formula : String) (events : List Event) :
    List Json :=
  if settings.logsJson then (fromLevel level events).map (·.toJson formula) else []

/-! ### The attributes of a check -/

/-- The bytes of the catalog file, if there is one. -/
def contentAt (target : String → PathTarget) : Option String → Except Breakdown (Option ByteArray)
  | none => .ok none
  | some path =>
    match target path with
    | .bytes content => .ok (some content)
    | _ => .error .unreadable

/-- The text of a catalog file, if there is one, or an error message. -/
def decoded : Option ByteArray → Except String (Option String)
  | none => .ok none
  | some content =>
    match String.fromUTF8? content with
    | some text => .ok (some text)
    | none => .error "invalid catalog file: it is not a UTF-8 text"

/-- The attributes in the text of a catalog file, if there is one, where `attributes` takes them from a
JSON value; an error message if they cannot be taken. -/
def attributesIn (attributes : Json → Except (List Rejection) Catalog) :
    Option String → Except String Catalog
  | none => .ok []
  | some text =>
    match Catalog.ofText attributes text with
    | .ok catalog => .ok catalog
    | .error .notJson => .error "invalid catalog file: it is not a JSON text"
    | .error (.rejected faults) =>
      .error ("invalid catalog file: " ++ toString faults.length ++ " validation errors")

/-- The attributes of declarations, or the message for the first that cannot be taken. -/
def declaredAttributes : List String → Except String Catalog
  | [] => .ok []
  | declaration :: rest =>
    match Attribute.ofDeclaration? declaration with
    | none => .error (badDeclarationMessage declaration)
    | some found => (declaredAttributes rest).map (found :: ·)

/-! ### The other commands -/

/-- The line for a function. -/
def functionLine (signature : Signature) : String :=
  let arity :=
    match signature.arity with
    | .variadic => "variadic"
    | .exactly count => toString count
  signature.name ++ "(" ++ ", ".intercalate signature.labels ++ ")  [" ++ arity ++ "] " ++
    signature.description

/-- A truth value in the report of the settings. -/
def flagText (b : Bool) : String :=
  if b then "True" else "False"

/-- The lines that tell the settings; they are put out as one text. -/
def settingsLines (s : Settings) : List String := [
  "",
  "FormulaBase v" ++ s.appVersion,
  String.ofList (List.replicate 40 '='),
  "",
  "Configuration:",
  "  Environment:  " ++ s.environment.name,
  "  Debug:        " ++ flagText s.debug,
  "",
  "Parser:",
  "  Max Depth:    " ++ toString s.nestingLimit,
  "  Placeholder:  " ++ s.placeholder,
  "",
  "Logging:",
  "  Level:        " ++ s.logLevel.name,
  "  Format:       " ++ s.logFormat.name,
  ""]

end Command

namespace Platform

open Command

variable (p : Platform)

/-- A text as a line of the output. -/
def line (text : String) : String :=
  p.echo text ++ "\n"

/-- The lines of a text. -/
def linesText (lines : List String) : String :=
  String.join (lines.map p.line)

/-- A run that ends with an error message. -/
def failure (message : String) : Outcome :=
  ⟨2, "", some (p.echo message), [], none, none⟩

/-- Checks a formula against a catalog. -/
def checkFormula (settings : Settings) (level : LogLevel) (catalog : Catalog) (formula : String) :
    Outcome :=
  if p.formulaOverruns settings formula then .broken [] .overrun
  else
    let checked := Check.ofText settings.nestingLimit settings.placeholder catalog formula
    match tooLong? checked formula with
    | some digits =>
      .broken (entries settings level formula (droppedEvents formula)) (.longInteger digits)
    | none =>
      match checked with
      | .error overflow =>
        let events := rejectionEvents settings.nestingLimit formula overflow
        { p.failure (overflow.text settings.nestingLimit) with
          log := entries settings level formula events }
      | .ok check =>
        { exitCode := if check.isValid then 0 else 1
          output := p.linesText (verdictLines check)
          error := none
          log := entries settings level formula check.events
          rejected := none
          breakdown := none }

/-- Answers a request, where the catalog file holds `content` if there is one. -/
def answer (settings : Settings) (level : LogLevel) (content : Option ByteArray) (request : Request) :
    Outcome :=
  if content.any p.fileOverruns then .broken [] .overrun
  else
    match decoded content with
    | .error message => p.failure message
    | .ok text =>
      match attributesIn p.attributes text with
      | .error message => p.failure message
      | .ok fromFile =>
        match declaredAttributes request.declarations with
        | .error message => p.badParameter message
        | .ok declared => p.checkFormula settings level (fromFile ++ declared) request.formula

/-- Runs `check`. -/
def check (target : String → PathTarget) (settings : Settings) (level : LogLevel)
    (arguments : List String) : Outcome :=
  match p.request target arguments with
  | .error outcome => outcome
  | .ok request =>
    match contentAt target request.path with
    | .error breakdown => .broken [] breakdown
    | .ok content => p.answer settings level content request

/-- Runs a command that has no arguments of its own and puts out texts. -/
def tell (arguments texts : List String) : Outcome :=
  match p.plain arguments with
  | .error outcome => outcome
  | .ok () => .success (p.linesText texts)

/-- Runs a command. -/
def runNamed (name : Name) (target : String → PathTarget) (settings : Settings) (level : LogLevel)
    (arguments : List String) : Outcome :=
  match name with
  | .check => p.check target settings level arguments
  | .functions => p.tell arguments (Signature.all.map functionLine)
  | .info => p.tell arguments ["\n".intercalate (settingsLines settings)]

/-- Runs the program. -/
def run (around : Surroundings) (arguments : List String) : Outcome :=
  match p.program arguments with
  | .error outcome => outcome
  | .ok (level, name, rest) =>
    match p.settings around with
    | .error faults => .unset faults
    | .ok settings =>
      p.runNamed name around.target settings (level.getD settings.logLevel) rest

end Platform
end Formulary
