/-
# Rejected values

Settings and catalog files are checked as a whole: every value that cannot be taken is reported, with
its path and the reason. A path leads through the positions of lists and the names of fields.

Key definitions: `Rejection`, `Rejection.Reason`, `Rejection.Reason.code`.
-/

namespace Formulary

/-- A step of a path into a value. -/
inductive PathStep
  | item (index : Nat)
  | field (name : String)
deriving DecidableEq, Repr

namespace Rejection

/-- Why a value is rejected. -/
inductive Reason
  /-- It should be a list. -/
  | notList
  /-- It should be an object. -/
  | notObject
  /-- It should be there. -/
  | missing
  /-- It should be a string. -/
  | notString
  /-- It should be a text, without half of a surrogate pair. -/
  | notText
  /-- It should not be empty. -/
  | empty
  /-- It should be one of the words that are allowed. -/
  | otherWord
  /-- It should be a word for true or false. -/
  | notBoolean
  /-- It should be an integer. -/
  | notInteger
  | tooSmall
  | tooLarge
deriving DecidableEq, Repr

/-- The code of a reason. -/
def Reason.code : Reason → String
  | notList => "list_type"
  | notObject => "model_type"
  | missing => "missing"
  | notString => "string_type"
  | notText => "string_unicode"
  | empty => "string_too_short"
  | otherWord => "literal_error"
  | notBoolean => "bool_parsing"
  | notInteger => "int_parsing"
  | tooSmall => "greater_than_equal"
  | tooLarge => "less_than_equal"

end Rejection

/-- A value that is rejected. -/
structure Rejection where
  path : List PathStep
  reason : Rejection.Reason
deriving DecidableEq, Repr

end Formulary
