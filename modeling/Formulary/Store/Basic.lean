/-
# Stores

A store is the list of the nodes of a formula. The children of a node are the nodes that name it as
their parent, in the order of the list, and that order is the reading order of the formula. A store
may hold anything: identifiers may repeat, parents may be missing, and a chain of parents may run in
a circle. Of several nodes with one identifier the first is the one that the identifier names.

Key definitions: `Store`, `Store.get?`, `Store.childrenOf`, `Store.argumentsOf`, `Store.ancestors`,
`Store.inCycle`, `Store.allowedKinds`.
-/
import Formulary.Node
import Formulary.Signature
import Formulary.Sorting

namespace Formulary

/-- The nodes of a formula. -/
structure Store where
  nodes : List Node
deriving DecidableEq

namespace Store

/-- The number of nodes. -/
def size (store : Store) : Nat :=
  store.nodes.length

/-- The first node with the given identifier. -/
def get? (store : Store) (id : String) : Option Node :=
  store.nodes.find? (·.id = id)

/-- Whether some node has the given identifier. -/
def contains (store : Store) (id : String) : Bool :=
  store.nodes.any (·.id = id)

/-- The nodes without a parent. -/
def roots (store : Store) : List Node :=
  store.nodes.filter (·.parent.isNone)

/-- The nodes whose parent has the given identifier. -/
def childrenOf (store : Store) (id : String) : List Node :=
  store.nodes.filter (·.parent = some id)

/-- The argument groups of a function in the order of their slots; those that share a slot stay in
the order of the list. -/
def argumentsOf (store : Store) (id : String) : List Node :=
  sortBy (fun a b => a.slot.getD 0 ≤ b.slot.getD 0) ((store.childrenOf id).filter (·.isArgument))

/-- The chain of parents that starts with the node `id`, whose identifiers are in `seen` so far. It
ends at a root, at a parent that is missing, and before the first identifier that was seen. -/
def ancestorsFrom (store : Store) : Nat → List String → String → List Node
  | 0, _, _ => []
  | fuel + 1, seen, id =>
    match (store.get? id).bind (·.parent) with
    | none => []
    | some parent =>
      if seen.contains parent then []
      else
        match store.get? parent with
        | none => []
        | some node => node :: ancestorsFrom store fuel (parent :: seen) parent

/-- The chain of parents of a node, nearest first. It has no identifier twice, so that the number of
nodes bounds its length. -/
def ancestors (store : Store) (id : String) : List Node :=
  store.ancestorsFrom (store.size + 1) [id] id

/-- Whether a node occurs in the chain of parents of another. -/
def isAncestor (store : Store) (ancestor id : String) : Bool :=
  (store.ancestors id).any (·.id = ancestor)

/-- Whether the chain of parents of a node leads back to the node. -/
def inCycle (store : Store) (id : String) : Bool :=
  match (store.get? id).bind (·.parent) with
  | none => false
  | some parent => parent = id || store.isAncestor id parent

/-- The kinds of nodes that may be added at the root: all of them, but no further operator while
there are operators and no operands. -/
def allowedRoots (store : Store) : List Kind :=
  if store.roots.any (·.kind = .operator) && !store.roots.any (·.isOperand) then
    Kind.all.filter (· ≠ .operator)
  else Kind.all

/-- The kinds of nodes that may be added below a node: none below a leaf, argument groups below a
function that has none yet, and all below a group. -/
def allowedBelow (store : Store) (node : Node) : List Kind :=
  match node.kind with
  | .reference | .operator | .value => []
  | .function => if (store.argumentsOf node.id).isEmpty then [.group] else []
  | .group => Kind.all

/-- The kinds of nodes that may be added below the node with the given identifier, or at the root;
nothing if there is no such node. -/
def allowedKinds (store : Store) : Option String → Option (List Kind)
  | none => some store.allowedRoots
  | some id => (store.get? id).map store.allowedBelow

/-- A short description of a store. -/
def summary (store : Store) : String :=
  "NodeStore(" ++ toString store.size ++ " nodes)"

end Store
end Formulary
