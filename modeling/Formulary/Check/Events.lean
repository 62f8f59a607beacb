/-
# What a check logs

While a formula is checked each piece of text that is dropped is logged, then the sizes of what was
read, and then the outcome of each of the two reports; at the end the check as a whole is logged. A
formula that is nested too deeply is rejected, and the rejection is logged behind the pieces that
were dropped.

Key definitions: `Check.events`, `droppedEvents`, `rejectionEvents`.
-/
import Formulary.Check.Basic
import Formulary.Log

namespace Formulary

/-- A field that is a count. -/
def countField (name : String) (n : Nat) : String × Json :=
  (name, .ofInt n)

/-- The event for a piece of text that is dropped. -/
def Diagnostic.event (d : Diagnostic) : Event :=
  ⟨.debug, "Dropped formula input", [("reason", .string d.message), countField "position" d.position]⟩

namespace Check

/-- The event when a formula is read. -/
def readEvent (check : Check) : Event :=
  ⟨.debug, "Parsed formula",
    [countField "tokens" check.formula.scan.tokens.length, countField "nodes" check.store.size,
      countField "diagnostics" check.diagnostics.length]⟩

/-- The event for the report on the shape. -/
def shapeEvent (check : Check) : Event :=
  ⟨.debug, "Validated formula structure",
    [countField "nodes" check.store.size, countField "errors" check.shape.issues.length,
      countField "broken_connections" check.shape.broken.length]⟩

/-- The event for the report on the types. -/
def typesEvent (check : Check) : Event :=
  ⟨.debug, "Inferred formula types",
    [countField "nodes" check.store.size, countField "errors" check.types.issues.length,
      ("expression_type", .string check.types.type.name)]⟩

/-- The event for the check as a whole. -/
def checkedEvent (check : Check) : Event :=
  ⟨.info, "Checked formula",
    [countField "nodes" check.store.size,
      countField "structural_errors" check.shape.issues.length,
      countField "type_errors" check.types.issues.length]⟩

/-- All events of a check. -/
def events (check : Check) : List Event :=
  check.formula.scan.diagnostics.map (·.event) ++
    [check.readEvent, check.shapeEvent, check.typesEvent, check.checkedEvent]

end Check

/-- The message for a formula that is nested too deeply. -/
def Overflow.text (limit : Int) (overflow : Overflow) : String :=
  messageAt (Overflow.message limit) overflow.position

/-- The events for the pieces of a text that are dropped. -/
def droppedEvents (text : String) : List Event :=
  (Scan.ofText text).diagnostics.map (·.event)

/-- The events when a text is rejected because it is nested too deeply. -/
def rejectionEvents (limit : Int) (text : String) (overflow : Overflow) : List Event :=
  droppedEvents text ++
    [⟨.warning, "Formula rejected", [("error", .string (overflow.text limit))]⟩]

end Formulary
