/-
# Typing rules

The type of an operator or a call, given the types of its operands or arguments, and what is wrong
with those. The result of an operator hangs on its family alone, and that of a function on its rule,
except that a conditional has the type of its branches. A type that is unknown is never wrong.

Key definitions: `operatorTyping`, `functionTyping`.
-/
import Formulary.Issue
import Formulary.Signature

namespace Formulary

/-- The types that a family of operators takes on each side; a comparison for equality takes any. -/
def Operator.Family.operandTypes : Operator.Family → List DataType
  | arithmetic => [.number]
  | equality => [.number, .boolean, .string]
  | relational => [.number, .string]
  | boolean => [.boolean]

/-- The type of the result. -/
def Operator.Family.result : Operator.Family → DataType
  | arithmetic => .number
  | equality | relational | boolean => .boolean

/-- Whether the operands have to have one type. -/
def Operator.Family.compares : Operator.Family → Bool
  | equality | relational => true
  | arithmetic | boolean => false

/-- What is wrong with one operand. -/
def operandMismatches (family : Operator.Family) (symbol : String) (side : Side) (actual : DataType)
    (id : String) : List Issue :=
  if actual.accepts family.operandTypes then []
  else [.operandType family symbol side actual id]

/-- What is wrong with the operands of an operator. -/
def operatorMismatches (family : Operator.Family) (symbol : String) (left right : DataType)
    (id : String) : List Issue :=
  operandMismatches family symbol .left left id ++ operandMismatches family symbol .right right id ++
    if family.compares && left.conflicts right then
      [.operandConflict family symbol left right id]
    else []

/-- The type of the operator with the identifier `id`, and what is wrong with its operands. -/
def operatorTyping (symbol : Option String) (left right : DataType) (id : String) :
    DataType × List Issue :=
  match symbol with
  | none => (.unknown, [.unknownOperator none id])
  | some symbol =>
    match Operator.family? symbol with
    | none => (.unknown, [.unknownOperator symbol id])
    | some family => (family.result, operatorMismatches family symbol left right id)

/-- What is wrong with arguments that all should have one type; the first has the number `place`. -/
def argumentMismatches (name : String) (expected : DataType) (id : Option String) :
    Nat → List DataType → List Issue
  | _, [] => []
  | place, actual :: rest =>
    (if actual.accepts [expected] then [] else [.argumentType name expected place actual id]) ++
      argumentMismatches name expected id (place + 1) rest

/-- The type of a conditional and what is wrong with its arguments; those that are missing have an
unknown type. -/
def conditionalTyping (name : String) (arguments : List DataType) (id : Option String) :
    DataType × List Issue :=
  let condition := arguments.getD 0 .unknown
  let whenTrue := arguments.getD 1 .unknown
  let whenFalse := arguments.getD 2 .unknown
  (if whenTrue = .unknown then whenFalse else whenTrue,
    (if condition.accepts [.boolean] then [] else [.conditionType name condition id]) ++
      if whenTrue.conflicts whenFalse then [.branchConflict name whenTrue whenFalse id] else [])

/-- The type of a call and what is wrong with its arguments. -/
def functionTyping (signature : Signature) (arguments : List DataType) (id : Option String) :
    DataType × List Issue :=
  match signature.rule with
  | .numeric => (.number, argumentMismatches signature.name .number id 1 arguments)
  | .allBoolean => (.boolean, argumentMismatches signature.name .boolean id 1 arguments)
  | .negation =>
    (.boolean,
      match arguments with
      | [] => []
      | actual :: _ =>
        if actual.accepts [.boolean] then [] else [.negatedType signature.name actual id])
  | .nullCheck => (.boolean, [])
  | .conditional => conditionalTyping signature.name arguments id

end Formulary
