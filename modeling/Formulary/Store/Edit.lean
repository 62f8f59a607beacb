/-
# Editing a store

An edit changes the list of nodes and nothing else: it never repairs the tree. Taking out a node
leaves its children with a parent that is missing. Each edit says what it needs, and a failing one
says what was missing; the store is then as it was.

Setting the function of a node rebuilds its arguments if the function takes a fixed number of them:
the old argument groups go with everything below them, and as many empty groups as the function has
arguments come in at the end of the list. A function of any number of arguments, and a name that is
no function, keep the groups that there are.

Key definitions: `EditError`, `Change`, `Store.add`, `Store.insertRelative`, `Store.update`,
`Store.delete`, `Store.setFunction`, `Store.insertOperator`.
-/
import Formulary.Store.Basic

namespace Formulary

/-- Why an edit fails. -/
inductive EditError
  /-- The identifier of a new node is in use. -/
  | idInUse (id : String)
  /-- A node can go before or after another one only. -/
  | badPosition (position : String)
  /-- There is no node with the identifier. -/
  | missingNode (id : String)
  /-- The identifier of a node stays what it is. -/
  | fixedId
  /-- Nodes have no field of that name. -/
  | unknownField (name : String)
  /-- The second node is not the next sibling of the first. -/
  | notAdjacent (before after : String)
deriving DecidableEq, Repr

/-- The message of an error; for a missing node it is the identifier itself. -/
def EditError.message : EditError → String
  | idInUse id => "Node id '" ++ id ++ "' already exists"
  | badPosition position =>
    "Invalid position '" ++ position ++ "'. Expected 'before' or 'after'"
  | missingNode id => id
  | fixedId => "Node id cannot be changed"
  | unknownField name => "Nodes have no field '" ++ name ++ "'"
  | notAdjacent before after =>
    "Nodes '" ++ before ++ "' and '" ++ after ++ "' are not adjacent siblings"

/-- A change to one field of a node. -/
inductive Change
  | id (new : String)
  | kind (new : Kind)
  | parent (new : Option String)
  | reference (new : Option String)
  | operator (new : Option String)
  | function (new : Option String)
  | value (new : Option Number)
  | slot (new : Option Int)
  /-- A field that nodes do not have. -/
  | other (name : String)
deriving DecidableEq

namespace Change

/-- Whether a change is one of the identifier. -/
def isId : Change → Bool
  | id _ => true
  | _ => false

/-- The name of the field, if nodes do not have it. -/
def unknownField? : Change → Option String
  | other name => some name
  | _ => none

/-- A node after a change. -/
def apply (node : Node) : Change → Node
  | id new => { node with id := new }
  | kind new => { node with kind := new }
  | parent new => { node with parent := new }
  | reference new => { node with reference := new }
  | operator new => { node with operator := new }
  | function new => { node with function := new }
  | value new => { node with value := new }
  | slot new => { node with slot := new }
  | other _ => node

end Change

namespace Store

/-- The list with `new` right after the first node with the identifier. -/
def putAfter (id : String) (new : Node) : List Node → List Node
  | [] => []
  | node :: rest => if node.id = id then node :: new :: rest else node :: putAfter id new rest

/-- The list with `new` right before the first node with the identifier. -/
def putBefore (id : String) (new : Node) : List Node → List Node
  | [] => []
  | node :: rest => if node.id = id then new :: node :: rest else node :: putBefore id new rest

/-- The list with the first node of the identifier replaced. -/
def putAt (id : String) (new : Node) : List Node → List Node
  | [] => []
  | node :: rest => if node.id = id then new :: rest else node :: putAt id new rest

/-- The node with the given identifier. -/
def require (store : Store) (id : String) : Except EditError Node :=
  match store.get? id with
  | some node => .ok node
  | none => .error (.missingNode id)

/-- Refuses a node whose identifier is in use. -/
def requireNew (store : Store) (node : Node) : Except EditError Unit :=
  if store.contains node.id then .error (.idInUse node.id) else .ok ()

/-- Adds a node at the end of the list, or right after the node `after`. -/
def add (store : Store) (node : Node) (after : Option String) : Except EditError Store := do
  store.requireNew node
  match after with
  | none => return ⟨store.nodes ++ [node]⟩
  | some id =>
    let _ ← store.require id
    return ⟨putAfter id node store.nodes⟩

/-- Puts a node right before or right after the node `target`, as a sibling of it; gives the node
with its new parent, too. -/
def insertRelative (store : Store) (node : Node) (target position : String) :
    Except EditError (Node × Store) := do
  if position ≠ "before" && position ≠ "after" then throw (.badPosition position)
  store.requireNew node
  let sibling ← store.require target
  let node := { node with parent := sibling.parent }
  if position = "before" then return (node, ⟨putBefore target node store.nodes⟩)
  else return (node, ⟨putAfter target node store.nodes⟩)

/-- Changes fields of a node, and gives the changed node, too. -/
def update (store : Store) (id : String) (changes : List Change) :
    Except EditError (Node × Store) := do
  if changes.any (·.isId) then throw .fixedId
  let node ← store.require id
  match changes.findSome? (·.unknownField?) with
  | some name => throw (.unknownField name)
  | none =>
    let changed := changes.foldl Change.apply node
    return (changed, ⟨putAt id changed store.nodes⟩)

/-- Takes out one node, and gives it, too. Its children stay. -/
def delete (store : Store) (id : String) : Except EditError (Node × Store) := do
  let node ← store.require id
  return (node, ⟨store.nodes.eraseP (·.id = id)⟩)

/-- The list without the given nodes and without everything below them. -/
def pruned (store : Store) (ids : List String) : List Node :=
  store.nodes.filter fun node =>
    !ids.contains node.id && !ids.any fun id => store.isAncestor id node.id

/-- The empty argument groups of a function, with the given identifiers for the slots. -/
def emptyArguments (owner : String) (fresh : Nat → String) (count : Nat) : List Node :=
  (List.range count).map fun slot => .ofGroup (fresh slot) (some owner) (some slot)

/-- Makes a node a call of the function `name`, and gives its new argument groups, too. The new
groups take their identifiers from `fresh`. -/
def setFunction (store : Store) (id : String) (name : Option String) (fresh : Nat → String) :
    Except EditError (List Node × Store) := do
  let (_, store) ← store.update id [.kind .function, .function name]
  match Signature.fixedArity? name with
  | some count =>
    let groups := emptyArguments id fresh count
    return (groups, ⟨store.pruned ((store.argumentsOf id).map (·.id)) ++ groups⟩)
  | none => return ([], store)

/-- Whether `after` comes right behind the first `before` in a list. -/
def isNext (before after : String) : List String → Bool
  | [] => false
  | id :: rest => if id = before then rest.head? = some after else isNext before after rest

/-- Refuses two nodes unless the second is the next sibling of the first; gives their parent. -/
def requireAdjacent (store : Store) (before after : String) : Except EditError (Option String) := do
  let left ← store.require before
  let right ← store.require after
  let siblings := (store.nodes.filter (·.parent = left.parent)).map (·.id)
  if right.parent = left.parent && isNext before after siblings then return left.parent
  else throw (.notAdjacent before after)

/-- Puts an operator between two adjacent siblings, and gives its node, too. The operator takes the
identifier `fresh`. -/
def insertOperator (store : Store) (before after : String) (operator : Option String)
    (fresh : String) : Except EditError (Node × Store) := do
  let parent ← store.requireAdjacent before after
  let node := Node.ofOperator fresh parent operator
  return (node, ← store.add node (some before))

end Store
end Formulary
