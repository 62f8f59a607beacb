/-
# Issues

What can be wrong with a formula that was read or edited. An issue is a cause; its code, the node
that it is about, and its message are read off it. The two families are the shape of the store and
the types of operands and arguments.

Key definitions: `Issue`, `Issue.code`, `Issue.node?`, `Issue.message`.
-/
import Formulary.DataType
import Formulary.Node
import Formulary.Operator

namespace Formulary

/-- A side of an operator. -/
inductive Side
  | left
  | right
deriving DecidableEq, Repr

/-- The name of a side. -/
def Side.name : Side → String
  | left => "left"
  | right => "right"

/-- Something that is wrong with a formula. -/
inductive Issue
  /-- A sequence has operators and no operands. -/
  | operatorsWithoutOperands
  /-- The node `id` is an operand and follows another one. -/
  | missingOperator (before after : Kind) (id : String)
  /-- An operator has no operand on one side. -/
  | missingOperand (side : Side) (symbol : Option String) (id : String)
  /-- Several nodes have the identifier. -/
  | duplicateId (id : String) (uses : Nat)
  /-- The parent of the node does not exist. -/
  | orphan (id parent : String)
  /-- The parents of the node lead back to it. -/
  | parentCycle (id : String)
  /-- The parent of the node is of a kind that has no children. -/
  | leafHasChildren (parentKind : Kind) (parent id : String)
  /-- The parent of the node is a function, and the node is no argument. -/
  | invalidFunctionChild (function : Option String) (id : String)
  /-- The node is an argument, and its parent is no function. -/
  | invalidArgumentGroup (id : String)
  /-- The operator is none of those that there are. -/
  | unknownOperator (symbol : Option String) (id : String)
  /-- The reference refers to nothing. -/
  | emptyReference (id : String)
  /-- The reference refers to an attribute that the catalog does not have. -/
  | unknownReference (referred id : String)
  /-- The function is none of those that there are. -/
  | unknownFunction (name : Option String) (id : String)
  /-- A slot of the function has more than one argument. -/
  | duplicateArgument (name : String) (slot : Int) (id : String)
  /-- The slots of the arguments are not consecutive from zero on. -/
  | argumentGaps (name : String) (id : String)
  /-- The function has not as many arguments as it takes. -/
  | arityMismatch (name : String) (expected actual : Nat) (id : String)
  /-- The function has an argument in a slot that it does not have. -/
  | noSuchArgument (name : String) (slot : Int) (id : String)
  /-- A group holds nothing. -/
  | emptyGroup (id : String)
  /-- An operand has a type that the family of the operator does not take. -/
  | operandType (family : Operator.Family) (symbol : String) (side : Side) (actual : DataType)
      (id : String)
  /-- The operands of a comparison have different types. -/
  | operandConflict (family : Operator.Family) (symbol : String) (left right : DataType)
      (id : String)
  /-- An argument of a function of numbers or booleans has another type; counted from one. -/
  | argumentType (name : String) (expected : DataType) (place : Nat) (actual : DataType)
      (id : Option String)
  /-- The argument of a negation is no boolean. -/
  | negatedType (name : String) (actual : DataType) (id : Option String)
  /-- The condition of a conditional is no boolean. -/
  | conditionType (name : String) (actual : DataType) (id : Option String)
  /-- The branches of a conditional have different types. -/
  | branchConflict (name : String) (whenTrue whenFalse : DataType) (id : Option String)
deriving DecidableEq, Repr

/-- A name in a message, or the word for a name that is missing. -/
def shownName : Option String → String
  | some name => name
  | none => "None"

/-- A count with the noun that it counts. -/
def counted (count : Nat) (noun : String) : String :=
  toString count ++ " " ++ noun ++ if count = 1 then "" else "s"

/-- What a family of operators is called in messages. -/
def Operator.Family.title : Operator.Family → String
  | arithmetic => "Arithmetic operator"
  | equality => "Comparison operator"
  | relational => "Relational operator"
  | boolean => "Logical operator"

/-- What a family asks of its operands, in messages. -/
def Operator.Family.operands : Operator.Family → String
  | arithmetic => "numeric operands"
  | equality => "operands"
  | relational => "numeric or string operands"
  | boolean => "boolean operands"

/-- The arguments that a function of numbers or booleans takes, in messages. -/
def DataType.adjective : DataType → String
  | number => "numeric"
  | boolean => "boolean"
  | string => "string"
  | unknown => "unknown"

namespace Issue

/-- The code of an issue. -/
def code : Issue → String
  | operatorsWithoutOperands => "operators_without_operands"
  | missingOperator _ _ _ => "missing_operator"
  | missingOperand _ _ _ => "missing_operand"
  | duplicateId _ _ => "duplicate_id"
  | orphan _ _ => "orphan_node"
  | parentCycle _ => "parent_cycle"
  | leafHasChildren _ _ _ => "leaf_has_children"
  | invalidFunctionChild _ _ => "invalid_function_child"
  | invalidArgumentGroup _ => "invalid_argument_group"
  | unknownOperator _ _ => "unknown_operator"
  | emptyReference _ | unknownReference _ _ => "unresolved_attribute"
  | unknownFunction _ _ => "unknown_function"
  | duplicateArgument _ _ _ => "duplicate_argument_index"
  | argumentGaps _ _ | noSuchArgument _ _ _ => "invalid_argument_index"
  | arityMismatch _ _ _ _ => "arity_mismatch"
  | emptyGroup _ => "empty_group"
  | operandType _ _ _ _ _ | operandConflict _ _ _ _ _ | argumentType _ _ _ _ _
  | negatedType _ _ _ | conditionType _ _ _ | branchConflict _ _ _ _ => "type_mismatch"

/-- The node that an issue is about. -/
def node? : Issue → Option String
  | operatorsWithoutOperands => none
  | missingOperator _ _ id | missingOperand _ _ id | duplicateId id _ | orphan id _
  | parentCycle id | leafHasChildren _ _ id | invalidFunctionChild _ id | invalidArgumentGroup id
  | unknownOperator _ id | emptyReference id | unknownReference _ id | unknownFunction _ id
  | duplicateArgument _ _ id | argumentGaps _ id | arityMismatch _ _ _ id | noSuchArgument _ _ id
  | emptyGroup id | operandType _ _ _ _ id | operandConflict _ _ _ _ id => some id
  | argumentType _ _ _ _ id | negatedType _ _ id | conditionType _ _ id
  | branchConflict _ _ _ id => id

/-- The message of an issue. -/
def message : Issue → String
  | operatorsWithoutOperands => "Operators need operands (attributes, values or functions)"
  | missingOperator before after _ =>
    "Broken connection: missing operator between operands (" ++ before.name ++ " followed by " ++
      after.name ++ ")"
  | missingOperand side symbol _ =>
    "Operator '" ++ shownName symbol ++ "' is missing its " ++ side.name ++ " operand"
  | duplicateId id uses => "Node id '" ++ id ++ "' is used by " ++ toString uses ++ " nodes"
  | orphan id parent => "Node '" ++ id ++ "' references missing parent '" ++ parent ++ "'"
  | parentCycle id => "Node '" ++ id ++ "' is part of a parent cycle"
  | leafHasChildren kind parent _ =>
    kind.title ++ " node '" ++ parent ++ "' cannot have children"
  | invalidFunctionChild function _ =>
    "Function '" ++ shownName function ++ "' can only contain argument groups"
  | invalidArgumentGroup id => "Argument group '" ++ id ++ "' does not belong to a function"
  | unknownOperator symbol _ => "Unknown operator '" ++ shownName symbol ++ "'"
  | emptyReference id => "Attribute node '" ++ id ++ "' does not reference an attribute"
  | unknownReference referred _ => "Attribute '" ++ referred ++ "' not found in catalog"
  | unknownFunction name _ => "Unknown function '" ++ shownName name ++ "'"
  | duplicateArgument name slot _ =>
    "Function '" ++ name ++ "' has more than one argument " ++ toString (slot + 1)
  | argumentGaps name _ => "Function '" ++ name ++ "' has gaps in its argument positions"
  | arityMismatch name expected actual _ =>
    "Function '" ++ name ++ "' requires exactly " ++ counted expected "argument" ++ ", got " ++
      toString actual
  | noSuchArgument name slot _ =>
    "Function '" ++ name ++ "' has no argument position " ++ toString (slot + 1)
  | emptyGroup _ => "Empty group"
  | operandType family symbol side actual _ =>
    family.title ++ " '" ++ symbol ++ "' requires " ++ family.operands ++ ", but the " ++
      side.name ++ " operand has type " ++ actual.name
  | operandConflict family symbol left right _ =>
    family.title ++ " '" ++ symbol ++ "' requires operands of the same type, but got " ++
      left.name ++ " and " ++ right.name
  | argumentType name expected place actual _ =>
    "Function '" ++ name ++ "' requires " ++ expected.adjective ++ " arguments, but argument " ++
      toString place ++ " has type " ++ actual.name
  | negatedType name actual _ =>
    "Function '" ++ name ++ "' requires a boolean argument, but got " ++ actual.name
  | conditionType name actual _ =>
    "Function '" ++ name ++ "' requires a boolean condition as argument 1, but got " ++ actual.name
  | branchConflict name whenTrue whenFalse _ =>
    "Function '" ++ name ++ "' requires the true and false values to have the same type, but got " ++
      whenTrue.name ++ " and " ++ whenFalse.name

end Issue
end Formulary
