/-
# Nodes

A formula is a list of nodes, each of which names its parent. A node has a kind, and for each kind
one field tells what the node stands for: the identifier of an attribute, the symbol of an operator,
the name of a function, the value of a number, and the argument slot of a group that belongs to a
function. Editing may leave any of the fields empty, or set one that goes with another kind.

Key definitions: `Kind`, `Node`, `Node.isOperand`, `Node.isArgument`.
-/
import Formulary.Number.Basic

namespace Formulary

/-- What a node stands for. -/
inductive Kind
  | reference
  | operator
  | function
  | value
  | group
deriving DecidableEq, Repr

namespace Kind

/-- All kinds. -/
def all : List Kind :=
  [reference, operator, function, value, group]

/-- The name of a kind. -/
def name : Kind → String
  | reference => "attribute"
  | operator => "operator"
  | function => "function"
  | value => "value"
  | group => "group"

/-- The name of a kind at the start of a sentence. -/
def title : Kind → String
  | reference => "Attribute"
  | operator => "Operator"
  | function => "Function"
  | value => "Value"
  | group => "Group"

/-- The kind with the given name. -/
def ofName? (word : String) : Option Kind :=
  all.find? (·.name = word)

/-- Whether nodes of a kind stand for a value in a sequence; all do but operators. -/
def isOperand (kind : Kind) : Bool :=
  kind ≠ operator

/-- Whether nodes of a kind own no children. -/
def isLeaf : Kind → Bool
  | reference | operator | value => true
  | function | group => false

end Kind

/-- A node of a formula. -/
structure Node where
  id : String
  kind : Kind
  /-- The identifier of the parent; a root has none. -/
  parent : Option String := none
  /-- The identifier of the attribute that a reference refers to. -/
  reference : Option String := none
  /-- The symbol of an operator. -/
  operator : Option String := none
  /-- The name of a function. -/
  function : Option String := none
  /-- The number that a value stands for. -/
  value : Option Number := none
  /-- The slot of an argument group, counted from zero; a plain group has none. -/
  slot : Option Int := none
deriving DecidableEq

namespace Node

/-- Whether a node stands for a value in a sequence. -/
def isOperand (node : Node) : Bool :=
  node.kind.isOperand

/-- Whether a node is an argument of a function. -/
def isArgument (node : Node) : Bool :=
  node.kind = .group && node.slot.isSome

theorem isArgument_iff {node : Node} :
    node.isArgument = true ↔ node.kind = .group ∧ ∃ slot, node.slot = some slot := by
  rw [isArgument, Bool.and_eq_true, decide_eq_true_eq, Option.isSome_iff_exists]

/-- A reference to an attribute. -/
def ofReference (id : String) (parent reference : Option String) : Node :=
  { id, kind := .reference, parent, reference }

/-- An operator. -/
def ofOperator (id : String) (parent operator : Option String) : Node :=
  { id, kind := .operator, parent, operator }

/-- A function. -/
def ofFunction (id : String) (parent function : Option String) : Node :=
  { id, kind := .function, parent, function }

/-- A value. -/
def ofValue (id : String) (parent : Option String) (value : Option Number) : Node :=
  { id, kind := .value, parent, value }

/-- A group, in an argument slot or plain. -/
def ofGroup (id : String) (parent : Option String) (slot : Option Int) : Node :=
  { id, kind := .group, parent, slot }

end Node
end Formulary
