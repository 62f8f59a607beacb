/-
# Diagnostics

Reading a formula never fails on text that it does not understand: such text is dropped or the
formula is repaired, and a diagnostic says what happened and at which character of the text. The
causes are of two kinds. Text that is no token is dropped before the formula is put together;
tokens that do not fit together are noted when it is.

Key definitions: `Dropped`, `Fault`, `Fault.message`, `Diagnostic`.
-/

namespace Formulary

/-- A piece of text that is no token. -/
inductive Dropped
  /-- A run of digits and points that is no numeral. -/
  | malformedNumber (run : List Char)
  /-- A numeral whose value is too large for a finite double. -/
  | numberOutOfRange (run : List Char)
  /-- A word or a run of symbols that is neither a function nor an operator. -/
  | unrecognized (run : List Char)
  /-- A character that starts no token. -/
  | unexpected (c : Char)
  /-- An opening brace with no closing one behind it. -/
  | loneBrace
deriving DecidableEq, Repr

namespace Dropped

/-- The text that is dropped. -/
def text : Dropped → List Char
  | malformedNumber run => run
  | numberOutOfRange run => run
  | unrecognized run => run
  | unexpected c => [c]
  | loneBrace => ['{']

/-- The message for a piece of text that is dropped. -/
def message : Dropped → String
  | malformedNumber run => "Malformed number '" ++ String.ofList run ++ "'"
  | numberOutOfRange run => "Number out of range '" ++ String.ofList run ++ "'"
  | unrecognized run => "Unrecognized input '" ++ String.ofList run ++ "'"
  | unexpected c => "Unexpected character '" ++ String.ofList [c] ++ "'"
  | loneBrace => "Unterminated attribute reference"

end Dropped

/-- What is dropped or repaired while a formula is read. -/
inductive Fault
  | dropped (piece : Dropped)
  /-- A function name that no parenthesis follows. -/
  | missingArguments (name : String)
  /-- An attribute name that the catalog does not know. -/
  | unknownName (name : String)
  /-- A closing parenthesis with no opening one before it. -/
  | unmatchedClosing
  /-- A comma that separates no arguments. -/
  | strayComma
  /-- The opening parenthesis of a call that is never closed. -/
  | unclosedCall (name : String)
  /-- The opening parenthesis of a group that is never closed. -/
  | unclosedGroup
deriving DecidableEq, Repr

/-- The message for a fault. -/
def Fault.message : Fault → String
  | dropped piece => piece.message
  | missingArguments name => "Function '" ++ name ++ "' is missing its argument list"
  | unknownName name => "Unknown attribute '" ++ name ++ "'"
  | unmatchedClosing => "Unmatched ')'"
  | strayComma => "Unexpected ',' outside a function call"
  | unclosedCall name => "Missing ')' for function '" ++ name ++ "'"
  | unclosedGroup => "Missing ')'"

/-- A fault and the position in the text, in characters, that it is about. -/
structure Diagnostic where
  fault : Fault
  position : Nat
deriving DecidableEq, Repr

/-- A message about a position in a text. -/
def messageAt (message : String) (position : Nat) : String :=
  message ++ " at position " ++ toString position

namespace Diagnostic

/-- The message without the position. -/
def message (d : Diagnostic) : String :=
  d.fault.message

/-- The message with the position. -/
def text (d : Diagnostic) : String :=
  messageAt d.message d.position

end Diagnostic
end Formulary
