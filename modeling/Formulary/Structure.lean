/-
# The shape of a store

The structure report lists what is wrong with the shape of a store, whatever the types are. It looks
at the store as a whole first: identifiers, parents, and what the nodes hold; then at the sequence
of the roots, in which operands and operators have to alternate; and last at the arguments of each
function. A catalog may be given, and then every reference has to be in it.

Two operands next to each other are a broken connection. In a sequence that has operators and no
operands that alone is reported, and not each operator.

Key definitions: `checkSequence`, `Store.integrityIssues`, `Store.functionIssues`,
`Store.structureReport`.
-/
import Formulary.Catalog.Basic
import Formulary.Issue
import Formulary.Store.Basic

namespace Formulary

/-- Two adjacent operands. -/
structure BrokenConnection where
  before : String
  after : String
deriving DecidableEq, Repr

/-- The adjacent pairs of operands in a sequence. -/
def brokenPairs : List Node → List (Node × Node)
  | node :: next :: rest =>
    if node.isOperand && next.isOperand then (node, next) :: brokenPairs (next :: rest)
    else brokenPairs (next :: rest)
  | _ => []

/-- The broken connections of a sequence. -/
def brokenConnections (nodes : List Node) : List BrokenConnection :=
  (brokenPairs nodes).map fun (node, next) => ⟨node.id, next.id⟩

/-- Whether a neighbour of an operator is an operand. -/
def isOperandBeside (neighbour : Option Node) : Bool :=
  (neighbour.map (·.isOperand)).getD false

/-- The operands that operators lack in a sequence behind the node `previous`. -/
def missingOperands (previous : Option Node) : List Node → List Issue
  | [] => []
  | node :: rest =>
    let own :=
      if node.kind = .operator then
        (if isOperandBeside previous then [] else [.missingOperand .left node.operator node.id]) ++
          if isOperandBeside rest.head? then []
          else [.missingOperand .right node.operator node.id]
      else []
    own ++ missingOperands (some node) rest

/-- Whether a sequence has operators and no operands. -/
def lacksOperands (nodes : List Node) : Bool :=
  nodes.any (·.kind = .operator) && !nodes.any (·.isOperand)

/-- What is wrong with the alternation of operands and operators in a sequence. -/
def checkSequence (nodes : List Node) : List Issue :=
  let broken := (brokenPairs nodes).map fun (node, next) =>
    .missingOperator node.kind next.kind next.id
  if lacksOperands nodes then .operatorsWithoutOperands :: broken
  else broken ++ missingOperands none nodes

namespace Store

/-- The identifiers that several nodes have, in the order of their first use. -/
def duplicateIds (store : Store) : List Issue :=
  (store.nodes.map (·.id)).eraseDups.filterMap fun id =>
    let uses := store.nodes.countP (·.id = id)
    if uses > 1 then some (.duplicateId id uses) else none

/-- What is wrong with the parent of a node. Of several faults the first is reported. -/
def parentIssues (store : Store) (node : Node) : List Issue :=
  match node.parent with
  | none => []
  | some id =>
    match store.get? id with
    | none => [.orphan node.id id]
    | some parent =>
      if store.inCycle node.id then [.parentCycle node.id]
      else if parent.kind.isLeaf then [.leafHasChildren parent.kind parent.id node.id]
      else if parent.kind = .function && !node.isArgument then
        [.invalidFunctionChild parent.function node.id]
      else []

/-- Whether the parent of a node is a function. A parent without an identifier is none. -/
def hasFunctionParent (store : Store) (node : Node) : Bool :=
  match node.parent with
  | none => false
  | some id => id ≠ "" && ((store.get? id).map (·.kind)) = some .function

/-- What is wrong with an argument group. -/
def argumentIssues (store : Store) (node : Node) : List Issue :=
  if node.isArgument && !store.hasFunctionParent node then [.invalidArgumentGroup node.id] else []

/-- What is wrong with the symbol of an operator. -/
def operatorIssues (node : Node) : List Issue :=
  if node.kind = .operator && !isOperator (node.operator.getD "") then
    [.unknownOperator node.operator node.id]
  else []

/-- What is wrong with a reference. -/
def referenceIssues (catalog : Option Catalog) (node : Node) : List Issue :=
  if node.kind = .reference then
    match node.reference with
    | none => [.emptyReference node.id]
    | some id =>
      if id = "" then [.emptyReference node.id]
      else if (catalog.map fun c => (c.lookup? id).isNone).getD false then
        [.unknownReference id node.id]
      else []
  else []

/-- What is wrong with the identifiers, the parents and the contents of the nodes. -/
def integrityIssues (store : Store) (catalog : Option Catalog) : List Issue :=
  store.duplicateIds ++ store.nodes.flatMap fun node =>
    store.parentIssues node ++ store.argumentIssues node ++ operatorIssues node ++
      referenceIssues catalog node

/-- The slots of the arguments of a function, in increasing order. -/
def slotsOf (store : Store) (id : String) : List Int :=
  (store.argumentsOf id).map (·.slot.getD 0)

/-- What is wrong with the slots of the arguments of a function, given in increasing order. -/
def slotIssues (signature : Signature) (id : String) (slots : List Int) : List Issue :=
  let distinct := slots.eraseDups
  let repeated := (distinct.filter fun slot => slots.count slot > 1).map fun slot =>
    .duplicateArgument signature.name slot id
  repeated ++
    match signature.arity with
    | .variadic =>
      if distinct = (List.range distinct.length).map Int.ofNat then []
      else [.argumentGaps signature.name id]
    | .exactly count =>
      (if distinct.length = count then []
        else [.arityMismatch signature.name count distinct.length id]) ++
      (distinct.filter fun slot => slot < 0 || (count : Int) ≤ slot).map fun slot =>
        .noSuchArgument signature.name slot id

/-- What is wrong with the name and the arguments of a function. -/
def functionIssues (store : Store) (node : Node) : List Issue :=
  match node.function.bind Signature.find? with
  | none => [.unknownFunction node.function node.id]
  | some signature => slotIssues signature node.id (store.slotsOf node.id)

end Store

/-- What is wrong with the shape of a store. -/
structure StructureReport where
  issues : List Issue
  broken : List BrokenConnection
deriving DecidableEq, Repr

/-- Whether nothing is wrong with the shape. -/
def StructureReport.isValid (report : StructureReport) : Bool :=
  report.issues.isEmpty

/-- The report on the shape of a store; references are looked up in the catalog, if there is one. -/
def Store.structureReport (store : Store) (catalog : Option Catalog) : StructureReport where
  issues :=
    store.integrityIssues catalog ++ checkSequence store.roots ++
      (store.nodes.filter (·.kind = .function)).flatMap store.functionIssues
  broken := brokenConnections store.roots

end Formulary
