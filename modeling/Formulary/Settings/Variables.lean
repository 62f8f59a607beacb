/-
# Variables of a settings file

The value of an assignment may refer to other variables: `${NAME}` stands for the value of a variable
and `${NAME:-default}` for the default if there is no such variable. A name goes up to a colon or a
closing brace, and a default up to a closing brace; what has neither form stands for itself. Without
a default a variable that does not exist stands for the empty text, and so does one that was
assigned no value.

References are resolved in the order of the file: those to variables assigned before find these, and
others find the variables of the environment. A variable that is assigned again keeps its place among
the variables.

Key definitions: `VariableReference`, `substituted`, `Variables.ofFile`.
-/
import Formulary.Settings.File

namespace Formulary

/-- A reference to a variable. -/
structure VariableReference where
  name : List Char
  /-- What stands for a variable that does not exist. -/
  fallback : List Char
  /-- The number of characters of the reference. -/
  length : Nat
deriving DecidableEq, Repr

/-- The reference with which a text starts, if it does. -/
def variableReference? : List Char → Option VariableReference
  | '$' :: '{' :: cs =>
    let name := cs.takeWhile fun c => c ≠ '}' && c ≠ ':'
    match cs.dropWhile fun c => c ≠ '}' && c ≠ ':' with
    | '}' :: _ => some ⟨name, [], name.length + 3⟩
    | ':' :: '-' :: rest =>
      let fallback := rest.takeWhile (· ≠ '}')
      if rest.contains '}' then some ⟨name, fallback, name.length + fallback.length + 5⟩ else none
    | _ => none
  | _ => none

/-- A text with a value in place of each reference, behind the next `skip` characters. -/
def substituted (value : VariableReference → List Char) : Nat → List Char → List Char
  | _, [] => []
  | skip + 1, _ :: cs => substituted value skip cs
  | 0, c :: cs =>
    match variableReference? (c :: cs) with
    | some reference => value reference ++ substituted value (reference.length - 1) cs
    | none => c :: substituted value 0 cs

/-- The references of a text, in its order, behind the next `skip` characters. -/
def referencesIn : Nat → List Char → List VariableReference
  | _, [] => []
  | skip + 1, _ :: cs => referencesIn skip cs
  | 0, c :: cs =>
    match variableReference? (c :: cs) with
    | some reference => reference :: referencesIn (reference.length - 1) cs
    | none => referencesIn 0 cs

/-- The names of the variables to which a settings file refers. -/
def referredNames (text : String) : List String :=
  (assignmentsOfFile text).flatMap fun assignment =>
    ((assignment.value.map fun value => referencesIn 0 value.toList).getD []).map
      fun reference => String.ofList reference.name

/-- Variables with their values; one that was assigned no value has none. -/
abbrev Variables := List (String × Option String)

namespace Variables

/-- The variables with one of them assigned: in its place if it is there, and at the end otherwise. -/
def assign (name : String) (value : Option String) : Variables → Variables
  | [] => [(name, value)]
  | (other, old) :: rest =>
    if other = name then (other, value) :: rest else (other, old) :: assign name value rest

/-- The text that a reference stands for. -/
def resolve (environment : List (String × String)) (assigned : Variables)
    (reference : VariableReference) : List Char :=
  let name := String.ofList reference.name
  match assigned.lookup name with
  | some value => (value.getD "").toList
  | none => ((environment.lookup name).map String.toList).getD reference.fallback

/-- The variables after an assignment. -/
def afterAssignment (environment : List (String × String)) (assigned : Variables)
    (assignment : Assignment) : Variables :=
  assigned.assign assignment.name <| assignment.value.map fun value =>
    String.ofList (substituted (assigned.resolve environment) 0 value.toList)

/-- The variables that a settings file assigns. -/
def ofFile (environment : List (String × String)) (text : String) : Variables :=
  (assignmentsOfFile text).foldl (afterAssignment environment) []

end Variables
end Formulary
