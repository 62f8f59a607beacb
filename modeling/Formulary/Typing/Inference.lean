/-
# Type inference

Types are inferred from the leaves up. A sequence is read strictly from left to right: its first
operator takes the type of the operand before it, every further one the type of the operator before
it, and each the type of the operand behind it. The type of a sequence is that of its last operator,
or of its only operand. The type of a call comes from the first argument of each slot; a slot of a
function with a fixed number of arguments that has none has an unknown type.

Nodes below no root are never visited and have an unknown type. Where several operands of a sequence
have one identifier, the type inferred last counts for all of them.

Key definitions: `Typed`, `Tree.infer`, `Store.inferTypes`, `TypeReport`.
-/
import Formulary.Catalog.Basic
import Formulary.Structure
import Formulary.Tree
import Formulary.Typing.Rules

namespace Formulary

/-- The last value that a list of records has for a key. -/
def lastRecord? (records : List (String × DataType)) (id : String) : Option DataType :=
  records.reverse.lookup id

/-- What inference finds about a tree or a sequence. -/
structure Typed where
  type : DataType
  issues : List Issue
  /-- The types of the nodes that were visited, in the order in which they were found. -/
  records : List (String × DataType)
deriving DecidableEq, Repr

namespace Typed

/-- The same, with a record of the type for a node. -/
def recordAs (id : String) (t : Typed) : Typed :=
  { t with records := t.records ++ [(id, t.type)] }

/-- The type of the operand next to an operator, or unknown if there is none. -/
def besideOperator (types : List (String × DataType)) (neighbour : Option Node) : DataType :=
  match neighbour with
  | some node => if node.isOperand then (lastRecord? types node.id).getD .unknown else .unknown
  | none => .unknown

/-- The operators of a sequence behind the node `previous`, given the types of its operands, and the
type `sofar` of the operators before. -/
def foldOperators (types : List (String × DataType)) :
    Option Node → Option DataType → List Node → Option DataType × List Issue × List (String × DataType)
  | _, sofar, [] => (sofar, [], [])
  | previous, sofar, node :: rest =>
    if node.kind = .operator then
      let left := sofar.getD (besideOperator types previous)
      let (type, issues) :=
        operatorTyping node.operator left (besideOperator types rest.head?) node.id
      let (last, others, records) := foldOperators types (some node) (some type) rest
      (last, issues ++ others, (node.id, type) :: records)
    else foldOperators types (some node) sofar rest

/-- A sequence, given what was found about each of its operands. -/
def sequence (nodes : List Node) (operands : List (Node × Typed)) : Typed :=
  let types := operands.map fun (node, t) => (node.id, t.type)
  let (last, issues, records) := foldOperators types none none nodes
  { type :=
      match last, nodes with
      | some type, _ => type
      | none, [node] => besideOperator types (some node)
      | none, _ => .unknown
    issues := checkSequence nodes ++ operands.flatMap (·.2.issues) ++ issues
    records := operands.flatMap (·.2.records) ++ records }

/-- A reference. -/
def reference (catalog : Catalog) (node : Node) : Typed :=
  match node.reference with
  | none => ⟨.unknown, [.emptyReference node.id], []⟩
  | some id =>
    if id = "" then ⟨.unknown, [.emptyReference node.id], []⟩
    else
      match catalog.lookup? id with
      | none => ⟨.unknown, [.unknownReference id node.id], []⟩
      | some found => ⟨.ofDeclared found.declared, [], []⟩

/-- The types of the arguments that count, given the types of the argument groups in the order of
their slots: the first of each slot. -/
def argumentTypes (signature : Signature) (slots : List (Int × DataType)) : List DataType :=
  match signature.arity with
  | .variadic => (slots.map (·.1)).eraseDups.map fun slot => (slots.lookup slot).getD .unknown
  | .exactly count =>
    (List.range count).map fun slot => (slots.lookup (Int.ofNat slot)).getD .unknown

/-- A call, given what was found about its argument groups. -/
def call (node : Node) (arguments : List (Node × Typed)) : Typed :=
  let issues := arguments.flatMap (·.2.issues)
  let records := arguments.flatMap (·.2.records)
  match node.function.bind Signature.find? with
  | none => ⟨.unknown, issues ++ [.unknownFunction node.function node.id], records⟩
  | some signature =>
    let slots := arguments.map fun (group, t) => (group.slot.getD 0, t.type)
    let (type, own) := functionTyping signature (argumentTypes signature slots) (some node.id)
    ⟨type, issues ++ own, records⟩

end Typed

namespace Tree

variable (catalog : Catalog)

mutual

/-- What inference finds about an operand. -/
def infer : Tree → Typed
  | mk node children =>
    Typed.recordAs node.id <|
      match node.kind with
      | .value => ⟨.number, [], []⟩
      | .reference => .reference catalog node
      | .function => .call node (inferArguments children)
      | .group =>
        let t := Typed.sequence (children.map Tree.node) (inferOperands children)
        if children.isEmpty then { t with issues := .emptyGroup node.id :: t.issues } else t
      | .operator => ⟨.unknown, [], []⟩

/-- What inference finds about the operands of a sequence. -/
def inferOperands : List Tree → List (Node × Typed)
  | [] => []
  | tree :: rest =>
    if tree.node.isOperand then (tree.node, infer tree) :: inferOperands rest
    else inferOperands rest

/-- What inference finds about the argument groups of a function. An argument may be empty. -/
def inferArguments : List Tree → List (Node × Typed)
  | [] => []
  | mk group children :: rest =>
    (group, (Typed.sequence (children.map Tree.node) (inferOperands children)).recordAs group.id) ::
      inferArguments rest

end

/-- What inference finds about a sequence. -/
def inferSequence (trees : List Tree) : Typed :=
  .sequence (trees.map Tree.node) (inferOperands catalog trees)

end Tree

/-- The types of the nodes of a store, and what is wrong with them. -/
structure TypeReport where
  issues : List Issue
  /-- The type of the whole formula. -/
  type : DataType
  /-- The types of the nodes, one for each identifier in the order of first use. -/
  types : List (String × DataType)
deriving DecidableEq, Repr

/-- Whether nothing is wrong with the types. -/
def TypeReport.isValid (report : TypeReport) : Bool :=
  report.issues.isEmpty

/-- The report on the types of a store. -/
def Store.inferTypes (store : Store) (catalog : Catalog) : TypeReport :=
  let t := Tree.inferSequence catalog store.forest
  { issues := t.issues
    type := t.type
    types := (store.nodes.map (·.id)).eraseDups.map fun id =>
      (id, (lastRecord? t.records id).getD .unknown) }

end Formulary
