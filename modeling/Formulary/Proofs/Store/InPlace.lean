/-
# Editing in place

In place an edit changes the store step by step: what one step has written stays, even if a later step
fails. An edit that fails half way would leave half of its changes behind. No edit does so. Each makes its
checks before its first change, and an edit that is made of others has nothing left to fail for once the
first of them has changed something. In place an edit has therefore the outcome that it has in a session,
where a new store takes the place of the old one only at the end (`Edit.inPlace_eq`), and an edit that
fails leaves the store as it was (`Edit.fails_iff`).

Key definitions: `InPlace`, `Edit.inPlace`, `Session.result`.
Key theorems: `Edit.inPlace_eq`, `Session.result_apply`, `Edit.fails_iff`.
-/
import Formulary.Proofs.Store.Refusal

namespace Formulary

/-- An edit that changes the store as it goes; what was changed before a failure stays changed. -/
abbrev InPlace (α : Type) :=
  EStateM EditError Store α

namespace InPlace

/-- Looks something up in the store as it is by now. -/
def check {α : Type} (look : Store → Except EditError α) : InPlace α := fun store =>
  match look store with
  | .ok found => .ok found store
  | .error e => .error e store

/-- Changes the list of nodes. -/
def change (f : List Node → List Node) : InPlace Unit :=
  modify fun store => ⟨f store.nodes⟩

/-- Adds a node at the end of the list, or right after the node `after`. -/
def add (node : Node) (after : Option String) : InPlace Node := do
  check (·.requireNew node)
  match after with
  | none =>
    change (· ++ [node])
    return node
  | some id =>
    let _ ← check (·.require id)
    change (Store.putAfter id node)
    return node

/-- Puts a node right before or right after the node `target`, as a sibling of it. -/
def insertRelative (node : Node) (target position : String) : InPlace Node := do
  if position ≠ "before" && position ≠ "after" then throw (.badPosition position)
  check (·.requireNew node)
  let sibling ← check (·.require target)
  let node := { node with parent := sibling.parent }
  if position = "before" then change (Store.putBefore target node)
  else change (Store.putAfter target node)
  return node

/-- Changes fields of a node. -/
def update (id : String) (changes : List Change) : InPlace Node := do
  if changes.any (·.isId) then throw .fixedId
  let node ← check (·.require id)
  match changes.findSome? (·.unknownField?) with
  | some name => throw (.unknownField name)
  | none =>
    let changed := changes.foldl Change.apply node
    change (Store.putAt id changed)
    return changed

/-- Takes out one node. -/
def delete (id : String) : InPlace Node := do
  let node ← check (·.require id)
  change (·.eraseP (·.id = id))
  return node

/-- Makes a node a call, and then rebuilds its argument groups. -/
def setFunction (id : String) (name : Option String) (fresh : Nat → String) :
    InPlace (List Node) := do
  let _ ← update id [.kind .function, .function name]
  match Signature.fixedArity? name with
  | none => return []
  | some count =>
    let store ← get
    let old := (store.argumentsOf id).map (·.id)
    change fun _ => store.pruned old
    let groups := Store.emptyArguments id fresh count
    change (· ++ groups)
    return groups

/-- Adds an operator between two adjacent siblings. -/
def insertOperator (before after : String) (operator : Option String) (fresh : String) :
    InPlace Node := do
  let parent ← check (·.requireAdjacent before after)
  add (.ofOperator fresh parent operator) (some before)

/-! ### What is written stays only if all succeeds -/

/-- What an edit in place comes to: what it gives back, or why it fails, and the store afterwards. -/
def settled {α : Type} (store : Store) : Except EditError (α × Store) →
    EStateM.Result EditError Store α
  | .ok (given, other) => .ok given other
  | .error e => .error e store

section Steps

variable {store : Store} {α β : Type} {look : Store → Except EditError α} {e : EditError} {a : α}

theorem check_bind_error (h : look store = .error e) (next : α → InPlace β) :
    (check look >>= next) store = .error e store := by
  show EStateM.bind (check look) next store = _
  rw [EStateM.bind, check, h]

theorem check_bind_ok (h : look store = .ok a) (next : α → InPlace β) :
    (check look >>= next) store = next a store := by
  show EStateM.bind (check look) next store = _
  rw [EStateM.bind, check, h]

theorem map_settled {x : InPlace α} {outcome : Except EditError (α × Store)}
    (h : x store = settled store outcome) (f : α → β) :
    (f <$> x) store = settled store (outcome.map fun result => (f result.1, result.2)) := by
  show EStateM.map f x store = _
  rw [EStateM.map, h]
  cases outcome <;> rfl

end Steps

variable {store : Store}

theorem add_eq (node : Node) (after : Option String) :
    add node after store = settled store ((store.add node after).map (node, ·)) := by
  unfold add Store.add
  cases hnew : store.requireNew node with
  | error e => exact check_bind_error hnew _
  | ok found =>
    refine (check_bind_ok hnew _).trans ?_
    cases after with
    | none => rfl
    | some id =>
      have hlook : ∀ outcome, store.require id = outcome →
          (fun s : Store => s.require id) store = outcome := fun _ h => h
      dsimp only
      cases hafter : store.require id with
      | error e => exact check_bind_error (hlook _ hafter) _
      | ok target => exact check_bind_ok (hlook _ hafter) _

theorem insertRelative_eq (node : Node) (target position : String) :
    insertRelative node target position store =
      settled store (store.insertRelative node target position) := by
  unfold insertRelative Store.insertRelative
  dsimp only
  split
  · rfl
  · cases hnew : store.requireNew node with
    | error e => exact check_bind_error hnew _
    | ok found =>
      refine (check_bind_ok hnew _).trans ?_
      cases htarget : store.require target with
      | error e => exact check_bind_error htarget _
      | ok sibling =>
        refine (check_bind_ok htarget _).trans ?_
        by_cases hbefore : position = "before"
        · simp only [if_pos hbefore]
          rfl
        · simp only [if_neg hbefore]
          rfl

theorem update_eq (id : String) (changes : List Change) :
    update id changes store = settled store (store.update id changes) := by
  unfold update Store.update
  dsimp only
  split
  · rfl
  · cases hnode : store.require id with
    | error e => exact check_bind_error hnode _
    | ok node =>
      refine (check_bind_ok hnode _).trans ?_
      cases changes.findSome? (·.unknownField?) <;> rfl

theorem delete_eq (id : String) : delete id store = settled store (store.delete id) := by
  unfold delete Store.delete
  cases hnode : store.require id with
  | error e => exact check_bind_error hnode _
  | ok node => exact check_bind_ok hnode _

theorem setFunction_eq (id : String) (name : Option String) (fresh : Nat → String) :
    setFunction id name fresh store = settled store (store.setFunction id name fresh) := by
  have hupdate : update id [.kind .function, .function name] store =
      settled store (store.update id [.kind .function, .function name]) := update_eq _ _
  unfold setFunction Store.setFunction
  show EStateM.bind _ _ _ = _
  rw [EStateM.bind, hupdate]
  cases store.update id [.kind .function, .function name] with
  | error e => rfl
  | ok result =>
    -- The node is changed by now, and nothing that follows can fail.
    cases Signature.fixedArity? name <;> rfl

theorem insertOperator_eq (before after : String) (operator : Option String) (fresh : String) :
    insertOperator before after operator fresh store =
      settled store (store.insertOperator before after operator fresh) := by
  unfold insertOperator Store.insertOperator
  cases hparent : store.requireAdjacent before after with
  | error e => exact check_bind_error hparent _
  | ok parent =>
    exact (check_bind_ok hparent _).trans (add_eq _ _)

end InPlace

/-- An edit in place; new nodes take their identifiers from `fresh`. -/
def Edit.inPlace (fresh : Nat → String) : Edit → InPlace Edited
  | .add new after => .node <$> InPlace.add (new.make (fresh 0)) after
  | .insertRelative new target position =>
    .node <$> InPlace.insertRelative (new.make (fresh 0)) target position
  | .update id changes => .node <$> InPlace.update id changes
  | .delete id => .node <$> InPlace.delete id
  | .setFunction id name => .arguments <$> InPlace.setFunction id name fresh
  | .insertOperator before after operator =>
    .node <$> InPlace.insertOperator before after operator (fresh 0)

/-- **In place an edit is made as a whole or not at all.** -/
theorem Edit.inPlace_eq (edit : Edit) (store : Store) (fresh : Nat → String) :
    edit.inPlace fresh store = InPlace.settled store (store.outcome fresh edit) := by
  cases edit with
  | add new after =>
    refine (InPlace.map_settled (InPlace.add_eq _ _) _).trans (congrArg _ ?_)
    rw [Store.outcome]
    cases store.add (new.make (fresh 0)) after <;> rfl
  | insertRelative new target position =>
    exact InPlace.map_settled (InPlace.insertRelative_eq _ _ _) _
  | update id changes => exact InPlace.map_settled (InPlace.update_eq _ _) _
  | delete id => exact InPlace.map_settled (InPlace.delete_eq _) _
  | setFunction id name => exact InPlace.map_settled (InPlace.setFunction_eq _ _ _) _
  | insertOperator before after operator =>
    exact InPlace.map_settled (InPlace.insertOperator_eq _ _ _ _) _

namespace Session

/-- What an edit of a session comes to: what it gives back, or why it fails, and the store afterwards. -/
def result : Except EditError Edited × Session → EStateM.Result EditError Store Edited
  | (.ok given, session) => .ok given session.store
  | (.error e, session) => .error e session.store

theorem result_settle (session : Session) (outcome : Except EditError (Edited × Store)) :
    result (session.settle outcome) = InPlace.settled session.store outcome := by
  cases outcome <;> rfl

/-- A session makes its edits as if in place, with identifiers from its counter. -/
theorem result_apply (session : Session) (edit : Edit) :
    result (session.apply edit) =
      edit.inPlace (fun k => nodeId (session.issued + k + 1)) session.store := by
  rw [Edit.inPlace_eq]
  cases edit with
  | add new after =>
    cases new with
    | named node => exact result_settle _ _
    | unnamed node => exact result_settle _ _
  | insertRelative new target position =>
    cases new with
    | named node => exact result_settle _ _
    | unnamed node => exact result_settle _ _
  | update id changes => exact result_settle _ _
  | delete id => exact result_settle _ _
  | setFunction id name =>
    rw [apply, Store.outcome]
    cases session.store.setFunction id name fun slot => nodeId (session.issued + slot + 1) <;> rfl
  | insertOperator before after operator =>
    rw [apply, Store.outcome]
    cases hadjacent : session.store.requireAdjacent before after with
    | error e =>
      unfold Store.insertOperator
      rw [hadjacent]
      rfl
    | ok parent => exact result_settle (session.issue 1) _

end Session

/-- **An edit that fails leaves the store as it was, and it fails exactly for the reasons that there are to
refuse it.** A session makes its edits in place. An edit in place that fails with a store left behind is
one that the store refuses, and the store left behind is the one before. Where identifiers are unique, an
operator is refused between nodes of which the second does not stand right behind the first among the nodes
with one parent. -/
theorem Edit.fails_iff (edit : Edit) :
    (∀ session : Session, Session.result (session.apply edit) =
        edit.inPlace (fun k => nodeId (session.issued + k + 1)) session.store) ∧
      (∀ (store : Store) (fresh : Nat → String) (e : EditError) (left : Store),
        edit.inPlace fresh store = .error e left ↔ store.Refuses fresh edit e ∧ left = store) ∧
        ∀ store : Store, (idsOf store.nodes).Nodup → ∀ before after,
          store.NextSibling before after ↔
            ∃ parent first left right rest, store.nodes.filter (·.parent = parent) =
              first ++ left :: right :: rest ∧ left.id = before ∧ right.id = after := by
  refine ⟨fun session => Session.result_apply session edit, fun store fresh e left => ?_,
    fun store hunique before after => Store.nextSibling_iff hunique⟩
  rw [Edit.inPlace_eq, ← Store.outcome_eq_error_iff]
  cases store.outcome fresh edit with
  | ok result => simp [InPlace.settled]
  | error reason => simp [InPlace.settled, eq_comm]

/-- Two values without an operator between them. -/
def Store.unjoined : Store :=
  ⟨[.ofValue "x" none (some (.integer 1)), .ofValue "y" none (some (.integer 2))]⟩

/-- That the identifier of an operator is in use shows only when the operator is added. -/
theorem Edit.fails_unjoined :
    (idsOf Store.unjoined.nodes).Nodup ∧ Store.unjoined.NextSibling "x" "y" ∧
      (Edit.insertOperator "x" "y" (some "+")).inPlace (fun _ => "x") .unjoined =
        .error (.idInUse "x") .unjoined := by
  have hunique : (idsOf Store.unjoined.nodes).Nodup := by decide
  obtain ⟨-, hfails, hnext⟩ := Edit.fails_iff (.insertOperator "x" "y" (some "+"))
  have hsibling : Store.unjoined.NextSibling "x" "y" :=
    (hnext .unjoined hunique "x" "y").mpr ⟨none, [], _, _, [], rfl, rfl, rfl⟩
  have hused : (Store.unjoined).Refuses (fun _ => "x") (.insertOperator "x" "y" (some "+"))
      (.idInUse "x") := .operatorInUse hsibling (by decide)
  exact ⟨hunique, hsibling, (hfails .unjoined _ _ _).mpr ⟨hused, rfl⟩⟩

end Formulary
