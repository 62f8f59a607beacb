/-
# The tree of a store

What a store means is read off a tree: below a group stand its children, below a function its
argument groups in the order of their slots, and nothing below any other node. The trees of the
roots are all of it; nodes that no root leads to are not in it.

A path from a root down has no node twice unless it goes on for ever, so that the number of nodes
bounds the height of every tree that ends.

Key definitions: `Tree`, `Store.below`, `Store.tree`, `Store.forest`.
-/
import Formulary.Store.Basic

namespace Formulary

/-- A node with the trees below it. -/
inductive Tree
  | mk (node : Node) (children : List Tree)

namespace Tree

/-- The node at the top. -/
def node : Tree → Node
  | mk node _ => node

/-- The trees below the top. -/
def children : Tree → List Tree
  | mk _ children => children

end Tree

namespace Store

/-- The nodes right below a node. -/
def below (store : Store) (node : Node) : List Node :=
  match node.kind with
  | .group => store.childrenOf node.id
  | .function => store.argumentsOf node.id
  | .reference | .operator | .value => []

/-- The tree below a node, down to a depth. -/
def tree (store : Store) : Nat → Node → Tree
  | 0, node => .mk node []
  | depth + 1, node => .mk node ((store.below node).map (store.tree depth))

/-- The trees of the roots. -/
def forest (store : Store) : List Tree :=
  store.roots.map (store.tree store.size)

end Store
end Formulary
