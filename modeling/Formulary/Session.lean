/-
# Editing sessions

In a session nodes get their identifiers from a counter: the first node that is made without one is
`node_1`, the next `node_2`, and so on. An identifier that was issued is used up, even if the edit
that asked for it fails later on.

Key definitions: `nodeId`, `NewNode`, `Edit`, `Session`, `Session.apply`.
-/
import Formulary.Store.Edit

namespace Formulary

/-- The identifier that is issued as the `k`-th. -/
def nodeId (k : Nat) : String :=
  "node_" ++ toString k

/-- A node that is still to be made. -/
inductive NewNode
  /-- A node with an identifier of its own. -/
  | named (node : Node)
  /-- A node that gets its identifier from the session. Of the fields only the parent and the one
  that goes with the kind count. -/
  | unnamed (node : Node)

/-- A node of the same kind with the given identifier, the same parent and the one field that goes
with the kind. -/
def Node.renamed (node : Node) (id : String) : Node :=
  match node.kind with
  | .reference => .ofReference id node.parent node.reference
  | .operator => .ofOperator id node.parent node.operator
  | .function => .ofFunction id node.parent node.function
  | .value => .ofValue id node.parent node.value
  | .group => .ofGroup id node.parent node.slot

/-- An edit that a session can make. -/
inductive Edit
  | add (node : NewNode) (after : Option String)
  | insertRelative (node : NewNode) (target position : String)
  | update (id : String) (changes : List Change)
  | delete (id : String)
  | setFunction (id : String) (name : Option String)
  | insertOperator (before after : String) (operator : Option String)

/-- What an edit gives back: the node that it is about, or the argument groups that it made. -/
inductive Edited
  | node (node : Node)
  | arguments (groups : List Node)

/-- A store and the number of identifiers issued so far. -/
structure Session where
  store : Store
  issued : Nat

namespace Session

/-- Makes a node, with the next identifier if it has none. -/
def make (session : Session) : NewNode → Node × Session
  | .named node => (node, session)
  | .unnamed node =>
    (node.renamed (nodeId (session.issued + 1)), { session with issued := session.issued + 1 })

/-- The outcome of an edit of the store: the session has the new store if the edit succeeds, and
keeps the old one if it fails. -/
def settle (session : Session) : Except EditError (Edited × Store) →
    Except EditError Edited × Session
  | .ok (edited, store) => (.ok edited, { session with store })
  | .error e => (.error e, session)

/-- Issues a number of identifiers. -/
def issue (session : Session) (count : Nat) : Session :=
  { session with issued := session.issued + count }

/-- Makes an edit. -/
def apply (session : Session) : Edit → Except EditError Edited × Session
  | .add new after =>
    let (node, session) := session.make new
    session.settle ((session.store.add node after).map (.node node, ·))
  | .insertRelative new target position =>
    let (node, session) := session.make new
    session.settle <|
      (session.store.insertRelative node target position).map fun (node, s) => (.node node, s)
  | .update id changes =>
    session.settle ((session.store.update id changes).map fun (node, s) => (.node node, s))
  | .delete id =>
    session.settle ((session.store.delete id).map fun (node, s) => (.node node, s))
  | .setFunction id name =>
    match session.store.setFunction id name fun slot => nodeId (session.issued + slot + 1) with
    | .ok (groups, store) => (.ok (.arguments groups), ⟨store, session.issued + groups.length⟩)
    | .error e => (.error e, session)
  | .insertOperator before after operator =>
    match session.store.requireAdjacent before after with
    | .error e => (.error e, session)
    | .ok _ =>
      (session.issue 1).settle <|
        (session.store.insertOperator before after operator (nodeId (session.issued + 1))).map
          fun (node, s) => (.node node, s)

end Session
end Formulary
