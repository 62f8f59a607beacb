/-
# Functions and their signatures

The functions are a closed set. A signature fixes how many arguments a function takes, or that it
takes any number of them, what each argument is called, and the rule that gives the type of a call.

Key definitions: `Signature`, `Signature.all`, `Signature.find?`, `isFunctionName`.
-/

namespace Formulary

/-- How the type of a call follows from the types of its arguments. -/
inductive ResultRule
  /-- All arguments are numbers, and so is the result. -/
  | numeric
  /-- All arguments are booleans, and so is the result. -/
  | allBoolean
  /-- The one argument is a boolean, and so is the result. -/
  | negation
  /-- The argument may have any type; the result is a boolean. -/
  | nullCheck
  /-- The condition is a boolean, and both branches have the type of the result. -/
  | conditional
deriving DecidableEq, Repr

/-- The name of a rule. -/
def ResultRule.name : ResultRule → String
  | numeric => "numeric"
  | allBoolean => "all_boolean"
  | negation => "negation"
  | nullCheck => "null_check"
  | conditional => "conditional"

/-- The number of arguments that a function takes. -/
inductive Arity
  | exactly (count : Nat)
  | variadic
deriving DecidableEq, Repr

/-- The signature of a function. -/
structure Signature where
  name : String
  arity : Arity
  /-- What each argument is called. -/
  labels : List String
  rule : ResultRule
  description : String
  /-- A call as an example. -/
  sample : String
deriving DecidableEq, Repr

namespace Signature

/-- A function of numbers, with one argument for each label. -/
def ofNumbers (name : String) (labels : List String) (description sample : String) : Signature :=
  ⟨name, .exactly labels.length, labels, .numeric, description, sample⟩

/-- The functions of numbers. -/
def arithmetic : List Signature := [
  ofNumbers "abs" ["Number"] "Returns the absolute value of a number" "abs(-5) = 5",
  ofNumbers "sin" ["Angle (radians)"] "Returns the sine of an angle" "sin(3.14) ≈ 0",
  ofNumbers "cos" ["Angle (radians)"] "Returns the cosine of an angle" "cos(0) = 1",
  ofNumbers "tan" ["Angle (radians)"] "Returns the tangent of an angle" "tan(0.785) ≈ 1",
  ofNumbers "sqrt" ["Number"] "Returns the square root of a number" "sqrt(16) = 4",
  ofNumbers "log" ["Number"] "Returns the natural logarithm of a number" "log(2.718) ≈ 1",
  ofNumbers "exp" ["Number"] "Returns e raised to the power of a number" "exp(1) ≈ 2.718",
  ofNumbers "floor" ["Number"] "Returns the largest integer less than or equal to a number"
    "floor(3.7) = 3",
  ofNumbers "ceil" ["Number"] "Returns the smallest integer greater than or equal to a number"
    "ceil(3.2) = 4",
  ofNumbers "round" ["Number"] "Rounds a number to the nearest integer" "round(3.5) = 4",
  ofNumbers "pow" ["Base", "Exponent"] "Raises a number to the power of another number"
    "pow(2, 3) = 8",
  ofNumbers "min" ["Number1", "Number2"] "Returns the smaller of two numbers" "min(5, 3) = 3",
  ofNumbers "max" ["Number1", "Number2"] "Returns the larger of two numbers" "max(5, 3) = 5",
  ofNumbers "atan2" ["Y", "X"]
    "Returns the angle in radians whose tangent is the quotient of its arguments"
    "atan2(1, 1) ≈ 0.785"]

/-- The functions of booleans and the test for missing values. -/
def logical : List Signature := [
  ⟨"IF", .exactly 3, ["Condition", "True Value", "False Value"], .conditional,
    "Returns one value if condition is true, another if false",
    "IF(\x7bAge\x7d > 18, 1, 0)"⟩,
  ⟨"AND", .variadic, ["Condition1", "Condition2", "..."], .allBoolean,
    "Returns true if all conditions are true", "AND(\x7bAge\x7d > 18, \x7bIncome\x7d > 50000)"⟩,
  ⟨"OR", .variadic, ["Condition1", "Condition2", "..."], .allBoolean,
    "Returns true if any condition is true", "OR(\x7bVIP\x7d, \x7bIncome\x7d > 100000)"⟩,
  ⟨"NOT", .exactly 1, ["Condition"], .negation,
    "Returns the opposite of the condition", "NOT(\x7bVIP\x7d)"⟩,
  ⟨"ISNULL", .exactly 1, ["Value"], .nullCheck,
    "Returns true if the value is null or empty", "ISNULL(\x7bEmail\x7d)"⟩,
  ⟨"ISNOTNULL", .exactly 1, ["Value"], .nullCheck,
    "Returns true if the value is not null and not empty", "ISNOTNULL(\x7bEmail\x7d)"⟩]

/-- All functions, in the order in which they are listed. -/
def all : List Signature :=
  arithmetic ++ logical

/-- The signature of the function with the given name. -/
def find? (name : String) : Option Signature :=
  all.find? (·.name = name)

/-- Whether a function takes any number of arguments. -/
def isVariadic (s : Signature) : Bool :=
  s.arity = .variadic

/-- The number of arguments of the function with the given name, if there is such a function and it
takes a fixed number of them. -/
def fixedArity? (name : Option String) : Option Nat :=
  match name.bind find? with
  | some ⟨_, .exactly count, _, _, _, _⟩ => some count
  | _ => none

end Signature

/-- Whether a word is the name of a function. -/
def isFunctionName (word : String) : Bool :=
  (Signature.find? word).isSome

end Formulary
