/-
# Editing keeps identifiers apart

Adding a node is refused if its identifier is in use, and no edit changes the identifier of a node. Only
the argument groups that come with a function are put into the store unseen, with identifiers that were
issued for them. As long as no issued identifier is in use, edits therefore keep identifiers apart, in any
order and whether they succeed or fail, and an identifier names the same node until that node is taken out:
what the node holds is changed by updating it or by setting its function, and by nothing else
(`Store.unique_of_run`). The edits of a session are such a run (`Session.store_foldl_apply`).

Key definitions: `Step`, `Edit.revise`, `Store.after`, `Store.run`, `Store.FreshRun`, `Store.Leaves`.
Key theorems: `Session.store_apply`, `Store.leaves_after`, `Store.unique_of_run`,
`Session.store_foldl_apply`.
-/
import Formulary.Formula
import Formulary.Proofs.Store.Recast

namespace Formulary

/-- An edit with the identifiers that are issued for its new nodes. -/
structure Step where
  edit : Edit
  fresh : Nat → String

/-- A node that is made, with the identifier `fresh` if it has none. -/
def NewNode.make (fresh : String) : NewNode → Node
  | .named node => node
  | .unnamed node => node.renamed fresh

namespace Edit

/-- How many nodes an edit puts into a store without a look at their identifiers. -/
def unchecked : Edit → Nat
  | .setFunction _ name => (Signature.fixedArity? name).getD 0
  | _ => 0

/-- The identifier of the node whose fields an edit changes, if it changes any. -/
def changed? : Edit → Option String
  | .update id _ | .setFunction id _ => some id
  | _ => none

/-- What an edit that succeeds makes of a node that it leaves in the store. -/
def revise (node : Node) : Edit → Node
  | .update id changes =>
    if id = node.id && !changes.any (·.isId) && (changes.findSome? (·.unknownField?)).isNone then
      changes.foldl Change.apply node
    else node
  | .setFunction id name => if id = node.id then node.recast name else node
  | _ => node

theorem revise_of_changed? {edit : Edit} {node : Node} (h : edit.changed? ≠ some node.id) :
    edit.revise node = node := by
  cases edit with
  | update id changes =>
    have hne : ¬id = node.id := fun heq => h (congrArg some heq)
    exact if_neg (by simp [hne])
  | setFunction id name => exact if_neg fun heq => h (congrArg some heq)
  | _ => rfl

theorem id_foldl_apply {changes : List Change} (h : changes.any (·.isId) = false) (node : Node) :
    (changes.foldl Change.apply node).id = node.id := by
  induction changes generalizing node with
  | nil => rfl
  | cons change rest ih =>
    rw [List.any_cons, Bool.or_eq_false_iff] at h
    rw [List.foldl_cons, ih h.2]
    cases change <;> first | rfl | cases h.1

@[simp] theorem revise_id (edit : Edit) (node : Node) : (edit.revise node).id = node.id := by
  unfold revise
  split
  · split
    · next h =>
      simp only [Bool.and_eq_true, Bool.not_eq_true'] at h
      exact id_foldl_apply h.1.2 node
    · rfl
  · split <;> rfl
  · rfl

end Edit

namespace Store

/-- The outcome of an edit, or the store itself if the edit fails. -/
def orKeep (store : Store) : Except EditError Store → Store
  | .ok other => other
  | .error _ => store

/-- The store after an edit whose new nodes take their identifiers from `fresh`. -/
def after (store : Store) (fresh : Nat → String) : Edit → Store
  | .add new after => store.orKeep (store.add (new.make (fresh 0)) after)
  | .insertRelative new target position =>
    store.orKeep ((store.insertRelative (new.make (fresh 0)) target position).map Prod.snd)
  | .update id changes => store.orKeep ((store.update id changes).map Prod.snd)
  | .delete id => store.orKeep ((store.delete id).map Prod.snd)
  | .setFunction id name => store.orKeep ((store.setFunction id name fresh).map Prod.snd)
  | .insertOperator before after operator =>
    store.orKeep ((store.insertOperator before after operator (fresh 0)).map Prod.snd)

/-- The store after a number of edits. -/
def run (store : Store) (steps : List Step) : Store :=
  steps.foldl (fun store step => store.after step.fresh step.edit) store

/-- Whether an identifier occurs in a store neither as that of a node nor as that of a parent. -/
def Unused (store : Store) (id : String) : Prop :=
  id ∉ idsOf store.nodes ∧ ∀ node ∈ store.nodes, node.parent ≠ some id

/-- Whether the identifiers of the nodes that an edit puts into a store unseen are different, and none of
them is in use. -/
def FreshFor (store : Store) (fresh : Nat → String) (edit : Edit) : Prop :=
  ((List.range edit.unchecked).map fresh).Nodup ∧
    ∀ k < edit.unchecked, fresh k ∉ idsOf store.nodes

/-- Whether the identifiers that are issued are not in use, at each edit of a run. -/
def FreshRun : Store → List Step → Prop
  | _, [] => True
  | store, step :: rest =>
    store.FreshFor step.fresh step.edit ∧ (store.after step.fresh step.edit).FreshRun rest

end Store

theorem Session.store_settle {α : Type} (session : Session) (outcome : Except EditError α)
    (f : α → Edited × Store) :
    (session.settle (outcome.map f)).2.store = session.store.orKeep (outcome.map fun a => (f a).2) := by
  cases outcome <;> rfl

/-- A session makes its edits on the store, with identifiers from its counter. -/
theorem Session.store_apply (session : Session) (edit : Edit) :
    (session.apply edit).2.store =
      session.store.after (fun k => nodeId (session.issued + k + 1)) edit := by
  cases edit with
  | add new after =>
    have hmap : ∀ outcome : Except EditError Store, (outcome.map fun s => s) = outcome := by
      intro outcome
      cases outcome <;> rfl
    cases new with
    | named node => exact (store_settle _ _ _).trans (congrArg _ (hmap _))
    | unnamed node => exact (store_settle _ _ _).trans (congrArg _ (hmap _))
  | insertRelative new target position =>
    cases new with
    | named node => exact store_settle _ _ _
    | unnamed node => exact store_settle _ _ _
  | update id changes => exact store_settle _ _ _
  | delete id => exact store_settle _ _ _
  | setFunction id name =>
    rw [apply, Store.after]
    cases session.store.setFunction id name fun slot => nodeId (session.issued + slot + 1) <;> rfl
  | insertOperator before after operator =>
    rw [apply, Store.after]
    cases hadjacent : session.store.requireAdjacent before after with
    | error e =>
      unfold Store.insertOperator
      rw [hadjacent]
      rfl
    | ok parent => exact store_settle (session.issue 1) _ _

namespace Store

variable {store other : Store} {node new : Node} {id : String}

/-! ### One edit -/

theorem contains_eq_false_iff : store.contains id = false ↔ id ∉ idsOf store.nodes := by
  simp [contains, idsOf]

theorem putAfter_perm {nodes : List Node} (h : id ∈ idsOf nodes) :
    (putAfter id new nodes).Perm (new :: nodes) := by
  induction nodes with
  | nil => cases h
  | cons node rest ih =>
    rw [putAfter]
    split
    · exact List.Perm.swap new node rest
    · next hne =>
      have hrest := (List.mem_cons.mp h).resolve_left (Ne.symm hne)
      exact ((ih hrest).cons node).trans (List.Perm.swap new node rest)

theorem putBefore_perm {nodes : List Node} (h : id ∈ idsOf nodes) :
    (putBefore id new nodes).Perm (new :: nodes) := by
  induction nodes with
  | nil => cases h
  | cons node rest ih =>
    rw [putBefore]
    split
    · exact List.Perm.refl _
    · next hne =>
      have hrest := (List.mem_cons.mp h).resolve_left (Ne.symm hne)
      exact ((ih hrest).cons node).trans (List.Perm.swap new node rest)

theorem bind_eq_ok {α β : Type} {x : Except EditError α} {f : α → Except EditError β} {b : β}
    (h : (x >>= f) = .ok b) : ∃ a, x = .ok a ∧ f a = .ok b := by
  cases x with
  | error e => cases h
  | ok a => exact ⟨a, rfl, h⟩

theorem requireNew_eq_ok (h : store.requireNew new = .ok ()) : new.id ∉ idsOf store.nodes := by
  unfold requireNew at h
  split at h
  · cases h
  · next hnot => exact contains_eq_false_iff.mp (by simpa using hnot)

theorem require_eq_ok (h : store.require id = .ok node) : node ∈ store.nodes ∧ node.id = id := by
  unfold require at h
  split at h
  · next hget =>
    obtain rfl := Except.ok.inj h
    exact mem_of_get? hget
  · cases h

/-- What is added was not there, and comes to the others. -/
theorem perm_of_add {after : Option String} (h : store.add new after = .ok other) :
    new.id ∉ idsOf store.nodes ∧ other.nodes.Perm (new :: store.nodes) := by
  obtain ⟨⟨⟩, hnew, h⟩ := bind_eq_ok h
  refine ⟨requireNew_eq_ok hnew, ?_⟩
  cases after with
  | none =>
    obtain rfl := Except.ok.inj h
    exact List.perm_append_singleton new store.nodes
  | some id =>
    obtain ⟨target, htarget, h⟩ := bind_eq_ok h
    obtain ⟨hmem, rfl⟩ := require_eq_ok htarget
    obtain rfl := Except.ok.inj h
    exact putAfter_perm (List.mem_map_of_mem hmem)

theorem perm_of_insertRelative {target position : String} {placed : Node}
    (h : store.insertRelative new target position = .ok (placed, other)) :
    placed.id ∉ idsOf store.nodes ∧ other.nodes.Perm (placed :: store.nodes) := by
  unfold insertRelative at h
  dsimp only at h
  split at h
  · cases h
  · obtain ⟨⟨⟩, hnew, h⟩ := bind_eq_ok h
    obtain ⟨sibling, hsibling, h⟩ := bind_eq_ok h
    obtain ⟨hmem, rfl⟩ := require_eq_ok hsibling
    have hfresh := requireNew_eq_ok hnew
    split at h
    · cases h
      exact ⟨hfresh, putBefore_perm (List.mem_map_of_mem hmem)⟩
    · cases h
      exact ⟨hfresh, putAfter_perm (List.mem_map_of_mem hmem)⟩

theorem perm_of_insertOperator {before after fresh : String} {operator : Option String}
    (h : store.insertOperator before after operator fresh = .ok (new, other)) :
    new.id ∉ idsOf store.nodes ∧ other.nodes.Perm (new :: store.nodes) := by
  obtain ⟨parent, -, h⟩ := bind_eq_ok h
  obtain ⟨next, hadd, h⟩ := bind_eq_ok h
  cases h
  exact perm_of_add hadd

/-- Under unique identifiers, replacing the node of an identifier is a map over the list. -/
theorem putAt_eq_map {f : Node → Node} : ∀ {nodes : List Node}, (idsOf nodes).Nodup →
    node ∈ nodes → (∀ m ∈ nodes, m.id ≠ node.id → f m = m) →
    putAt node.id (f node) nodes = nodes.map f
  | first :: rest, hunique, hnode, hf => by
    obtain ⟨hfirst, hrest⟩ := List.nodup_cons.mp hunique
    rw [putAt, List.map_cons]
    split
    · next hid =>
      have hsame : ∀ m ∈ rest, f m = m := by
        refine fun m hm => hf m (List.mem_cons_of_mem _ hm) fun heq => hfirst ?_
        exact List.mem_map.mpr ⟨m, hm, heq.trans hid.symm⟩
      rw [List.inj_on_of_nodup_map hunique List.mem_cons_self hnode hid,
        List.map_congr_left hsame, List.map_id']
    · next hid =>
      have hmem : node ∈ rest := (List.mem_cons.mp hnode).resolve_left fun heq => hid (heq ▸ rfl)
      rw [hf first List.mem_cons_self hid,
        putAt_eq_map hrest hmem fun m hm => hf m (List.mem_cons_of_mem _ hm)]

/-- An update that succeeds puts the changed node in the place of the node; one that fails would change
none. -/
theorem update_cases (hunique : (idsOf store.nodes).Nodup) (id : String) (changes : List Change) :
    (∃ new, store.update id changes =
        .ok (new, ⟨store.nodes.map fun n => (Edit.update id changes).revise n⟩)) ∨
      ∃ e, store.update id changes = .error e ∧
        ∀ m ∈ store.nodes, (Edit.update id changes).revise m = m := by
  simp only [update, Edit.revise]
  cases hid : changes.any (·.isId) with
  | true => exact .inr ⟨.fixedId, rfl, fun m _ => if_neg (by simp)⟩
  | false =>
    cases hget : store.get? id with
    | none =>
      refine .inr ⟨.missingNode id, ?_, fun m hm => if_neg ?_⟩
      · rw [require, hget]
        rfl
      · have hne : ¬id = m.id := by
          rintro rfl
          rw [get?_of_unique hunique hm] at hget
          cases hget
        simp [hne]
    | some node =>
      rw [require, hget]
      cases changes.findSome? (·.unknownField?) with
      | some name => exact .inr ⟨.unknownField name, rfl, fun m _ => if_neg (by simp)⟩
      | none =>
        obtain ⟨hnode, rfl⟩ := mem_of_get? hget
        have hput := putAt_eq_map (f := fun n => if node.id = n.id then changes.foldl Change.apply n else n)
          hunique hnode fun m _ hm => if_neg (Ne.symm hm)
        rw [if_pos rfl] at hput
        exact .inl ⟨changes.foldl Change.apply node, by simp [← hput]⟩

/-- Setting a function that succeeds changes the node, takes out others, and puts new groups behind them. -/
theorem setFunction_cases (hunique : (idsOf store.nodes).Nodup) (id : String) (name : Option String)
    (fresh : Nat → String) :
    (∃ kept : List Node,
      kept.Sublist (store.nodes.map fun n => (Edit.setFunction id name).revise n) ∧
      store.setFunction id name fresh =
        .ok (emptyArguments id fresh ((Signature.fixedArity? name).getD 0),
          ⟨kept ++ emptyArguments id fresh ((Signature.fixedArity? name).getD 0)⟩)) ∨
      ∃ e, store.setFunction id name fresh = .error e ∧
        ∀ m ∈ store.nodes, (Edit.setFunction id name).revise m = m := by
  cases hget : store.get? id with
  | none =>
    refine .inr ⟨.missingNode id, ?_, fun m hm => if_neg ?_⟩
    · rw [setFunction, update, require, hget]
      rfl
    · rintro rfl
      rw [get?_of_unique hunique hm] at hget
      cases hget
  | some node =>
    obtain ⟨kept, hkept, hedit⟩ := setFunction_of_get? hget name fresh
    obtain ⟨hnode, rfl⟩ := mem_of_get? hget
    have hput := putAt_eq_map (f := fun n => (Edit.setFunction node.id name).revise n) hunique hnode
      fun m _ hm => if_neg (Ne.symm hm)
    rw [show (Edit.setFunction node.id name).revise node = node.recast name from if_pos rfl] at hput
    exact .inl ⟨kept, hput ▸ hkept, hedit⟩

/-- Whether nodes are what an edit leaves of a store: some that were there, with the changes that the edit
makes, and others whose identifiers are new and different. -/
def Leaves (store : Store) (edit : Edit) (nodes : List Node) : Prop :=
  ∃ kept added : List Node, nodes.Perm (kept ++ added) ∧
    kept.Sublist (store.nodes.map fun n => edit.revise n) ∧ (idsOf added).Nodup ∧
      ∀ n ∈ added, n.id ∉ idsOf store.nodes

namespace Leaves

variable {edit : Edit} {nodes : List Node}

/-- An edit that adds nothing. -/
theorem of_sublist (h : nodes.Sublist (store.nodes.map fun n => edit.revise n)) :
    store.Leaves edit nodes :=
  ⟨nodes, [], by rw [List.append_nil], h, List.nodup_nil, fun _ hn => by cases hn⟩

/-- An edit that fails. -/
theorem of_revise (h : ∀ n ∈ store.nodes, edit.revise n = n) : store.Leaves edit store.nodes := by
  refine of_sublist ?_
  rw [List.map_congr_left h, List.map_id']

/-- An edit that puts a node among the others. -/
theorem of_perm (h : ∀ n ∈ store.nodes, edit.revise n = n) (hnew : new.id ∉ idsOf store.nodes)
    (hperm : nodes.Perm (new :: store.nodes)) : store.Leaves edit nodes := by
  refine ⟨store.nodes, [new], hperm.trans (List.perm_append_singleton new store.nodes).symm, ?_,
    List.nodup_singleton _, List.forall_mem_singleton.mpr hnew⟩
  rw [List.map_congr_left h, List.map_id']

end Leaves

/-- **What an edit leaves**, whether it succeeds or fails. -/
theorem leaves_after (hunique : (idsOf store.nodes).Nodup) {fresh : Nat → String} {edit : Edit}
    (hfresh : store.FreshFor fresh edit) : store.Leaves edit (store.after fresh edit).nodes := by
  cases edit with
  | add new after =>
    rw [Store.after]
    cases hedit : store.add (new.make (fresh 0)) after with
    | error e => exact .of_revise fun _ _ => rfl
    | ok other =>
      obtain ⟨hnew, hperm⟩ := perm_of_add hedit
      exact .of_perm (fun _ _ => rfl) hnew hperm
  | insertRelative new target position =>
    rw [Store.after]
    cases hedit : store.insertRelative (new.make (fresh 0)) target position with
    | error e => exact .of_revise fun _ _ => rfl
    | ok result =>
      obtain ⟨hnew, hperm⟩ := perm_of_insertRelative hedit
      exact .of_perm (fun _ _ => rfl) hnew hperm
  | insertOperator before after operator =>
    rw [Store.after]
    cases hedit : store.insertOperator before after operator (fresh 0) with
    | error e => exact .of_revise fun _ _ => rfl
    | ok result =>
      obtain ⟨hnew, hperm⟩ := perm_of_insertOperator hedit
      exact .of_perm (fun _ _ => rfl) hnew hperm
  | update id changes =>
    rw [Store.after]
    rcases update_cases hunique id changes with ⟨new, hedit⟩ | ⟨e, hedit, hsame⟩
    · rw [hedit]
      exact .of_sublist (List.Sublist.refl _)
    · rw [hedit]
      exact .of_revise hsame
  | delete id =>
    rw [Store.after]
    refine .of_sublist ?_
    rw [show (fun n => Edit.revise n (.delete id)) = fun n => n from rfl, List.map_id', delete]
    cases store.require id with
    | error e => exact List.Sublist.refl _
    | ok node => exact List.eraseP_sublist
  | setFunction id name =>
    rw [Store.after]
    rcases setFunction_cases hunique id name fresh with ⟨kept, hkept, hedit⟩ | ⟨e, hedit, hsame⟩
    · obtain ⟨hdistinct, hunused⟩ := hfresh
      rw [hedit]
      refine ⟨kept, _, List.Perm.refl _, hkept, ?_, fun n hn => ?_⟩
      · rw [idsOf, emptyArguments, List.map_map]
        exact hdistinct
      · obtain ⟨slot, hslot, rfl⟩ := List.mem_map.mp hn
        exact hunused slot (List.mem_range.mp hslot)
    · rw [hedit]
      exact .of_revise hsame

namespace Leaves

variable {edit : Edit} {nodes : List Node}

theorem nodup (h : store.Leaves edit nodes) (hunique : (idsOf store.nodes).Nodup) :
    (idsOf nodes).Nodup := by
  obtain ⟨kept, added, hperm, hkept, hadded, hnew⟩ := h
  have hids : idsOf (store.nodes.map fun n => edit.revise n) = idsOf store.nodes := by
    rw [idsOf, idsOf, List.map_map]
    exact List.map_congr_left fun n _ => Edit.revise_id edit n
  have hsub : (idsOf kept).Sublist (idsOf store.nodes) := hids ▸ hkept.map _
  rw [idsOf, (hperm.map _).nodup_iff, List.map_append, List.nodup_append]
  refine ⟨hunique.sublist hsub, hadded, fun a ha b hb heq => ?_⟩
  obtain ⟨n, hn, rfl⟩ := List.mem_map.mp hb
  exact hnew n hn (heq ▸ hsub.subset ha)

/-- A node that is left is what the edit makes of it. -/
theorem get?_eq (h : store.Leaves edit nodes) (hunique : (idsOf store.nodes).Nodup)
    (hnode : node ∈ store.nodes) (hleft : (Store.mk nodes).contains node.id = true) :
    (Store.mk nodes).get? node.id = some (edit.revise node) := by
  have hnodup := h.nodup hunique
  obtain ⟨kept, added, hperm, hkept, -, hnew⟩ := h
  obtain ⟨n, hn, hid⟩ := List.any_eq_true.mp hleft
  have hid : n.id = node.id := of_decide_eq_true hid
  have hn' : n ∈ nodes := hn
  rcases List.mem_append.mp (hperm.mem_iff.mp hn') with hmem | hmem
  · obtain ⟨m, hm, rfl⟩ := List.mem_map.mp (hkept.subset hmem)
    rw [Edit.revise_id] at hid
    obtain rfl := List.inj_on_of_nodup_map hunique hm hnode hid
    rw [← Edit.revise_id edit m]
    exact get?_of_unique hnodup hn
  · exact absurd (hid ▸ List.mem_map_of_mem hnode) (hnew n hmem)

end Leaves

/-! ### A run of edits -/

theorem FreshRun.append {store : Store} {steps rest : List Step} (h : store.FreshRun (steps ++ rest)) :
    store.FreshRun steps ∧ (store.run steps).FreshRun rest := by
  induction steps generalizing store with
  | nil => exact ⟨trivial, h⟩
  | cons step steps ih => exact ⟨⟨h.1, (ih h.2).1⟩, (ih h.2).2⟩

/-- Edits keep identifiers apart. -/
theorem nodup_run {store : Store} {steps : List Step} (hunique : (idsOf store.nodes).Nodup)
    (hfresh : store.FreshRun steps) : (idsOf (store.run steps).nodes).Nodup := by
  induction steps generalizing store with
  | nil => exact hunique
  | cons step rest ih => exact ih ((leaves_after hunique hfresh.1).nodup hunique) hfresh.2

/-- A node that stays in the store changes by the edits of it. -/
theorem get?_run {store : Store} {steps : List Step} {node : Node}
    (hunique : (idsOf store.nodes).Nodup) (hfresh : store.FreshRun steps) (hnode : node ∈ store.nodes)
    (hleft : ∀ first, first <+: steps → (store.run first).contains node.id = true) :
    (store.run steps).get? node.id = some (steps.foldl (fun n step => step.edit.revise n) node) := by
  induction steps generalizing store node with
  | nil => exact get?_of_unique hunique hnode
  | cons step rest ih =>
    have hleaves := leaves_after hunique hfresh.1
    have hstep := hleaves.get?_eq hunique hnode
      (hleft [step] (List.prefix_iff_eq_take.mpr rfl))
    have hmem := (mem_of_get? hstep).1
    have hrest := ih (hleaves.nodup hunique) hfresh.2 hmem fun first hfirst => by
      rw [Edit.revise_id]
      exact hleft (step :: first) (List.prefix_cons_inj step |>.mpr hfirst)
    rw [Edit.revise_id] at hrest
    exact hrest

/-- Whether editing starts from a store: the empty one, or that of a formula that was read. -/
def Initial (store : Store) : Prop :=
  store = ⟨[]⟩ ∨ ∃ limit catalog text formula k,
    Formula.read limit catalog text = .ok formula ∧ store = formula.store k

theorem Initial.unique {store : Store} (h : store.Initial) : (idsOf store.nodes).Nodup := by
  rcases h with rfl | ⟨limit, catalog, text, formula, k, -, rfl⟩
  · exact List.nodup_nil
  · exact Term.nodup_sequenceNodes none k formula.terms

/-- **Identifiers stay unique over whole runs of edits**, whichever of the edits fail, as long as no issued
identifier is in use. A node that is never taken out keeps its identifier, and is changed by updating it and
by setting its function only. -/
theorem unique_of_run {start : Store} (hstart : start.Initial) (first rest : List Step)
    (hfresh : start.FreshRun (first ++ rest)) :
    (idsOf (start.run first).nodes).Nodup ∧
      ∀ node ∈ (start.run first).nodes,
        (∀ steps, steps <+: rest → ((start.run first).run steps).contains node.id = true) →
          ((start.run first).run rest).get? node.id =
              some (rest.foldl (fun n step => step.edit.revise n) node) ∧
            ((∀ step ∈ rest, step.edit.changed? ≠ some node.id) →
              ((start.run first).run rest).get? node.id = some node) := by
  have hunique := nodup_run hstart.unique hfresh.append.1
  refine ⟨hunique, fun node hnode hleft => ?_⟩
  have hget := get?_run hunique hfresh.append.2 hnode hleft
  refine ⟨hget, fun hchanged => ?_⟩
  have hsame : rest.foldl (fun n step => step.edit.revise n) node = node := by
    clear hget hleft hfresh
    induction rest with
    | nil => rfl
    | cons step rest ih =>
      rw [List.foldl_cons, Edit.revise_of_changed? (hchanged step List.mem_cons_self)]
      exact ih fun other hother => hchanged other (List.mem_cons_of_mem _ hother)
  rw [hget, hsame]

/-- Edits that make a negation, and then another function of it. -/
def negating : List Step :=
  [⟨.add (.named (.ofFunction "f" none none)) none, fun _ => "new"⟩,
    ⟨.setFunction "f" (some "NOT"), fun _ => "slot"⟩]

/-- Edits of the function, of which the first fails. -/
def recalling : List Step :=
  [⟨.add (.named (.ofValue "f" none none)) none, fun _ => "new"⟩,
    ⟨.update "f" [.function (some "AND")], fun _ => "new"⟩, ⟨.delete "slot", fun _ => "new"⟩]

theorem unique_negating_recalling :
    (Store.mk []).Initial ∧ (Store.mk []).FreshRun (negating ++ recalling) ∧
      (idsOf ((Store.mk []).run negating).nodes).Nodup ∧
        (((Store.mk []).run negating).run recalling).get? "f" =
          some (.ofFunction "f" none (some "AND")) := by
  have hstart : (Store.mk []).Initial := .inl rfl
  have hfresh : (Store.mk []).FreshRun (negating ++ recalling) :=
    ⟨⟨by decide, by decide⟩, ⟨by decide, by decide⟩, ⟨by decide, by decide⟩, ⟨by decide, by decide⟩,
      ⟨by decide, by decide⟩, trivial⟩
  obtain ⟨hunique, hnode⟩ := unique_of_run hstart negating recalling hfresh
  have hleft : ∀ steps ∈ recalling.inits, (((Store.mk []).run negating).run steps).contains "f" = true := by
    decide
  refine ⟨hstart, hfresh, hunique, ?_⟩
  exact (hnode (.ofFunction "f" none (some "NOT")) List.mem_cons_self
    fun steps hsteps => hleft steps ((List.mem_inits steps recalling).mpr hsteps)).1

end Store

/-- The edits of a session are a run on its store. -/
theorem Session.store_foldl_apply (session : Session) (edits : List Edit) :
    ∃ steps : List Step, steps.map (·.edit) = edits ∧
      (edits.foldl (fun s edit => (s.apply edit).2) session).store = session.store.run steps := by
  induction edits generalizing session with
  | nil => exact ⟨[], rfl, rfl⟩
  | cons edit rest ih =>
    obtain ⟨steps, rfl, hrun⟩ := ih (session.apply edit).2
    refine ⟨⟨edit, fun k => nodeId (session.issued + k + 1)⟩ :: steps, rfl, ?_⟩
    rw [List.foldl_cons, hrun, store_apply]
    rfl

end Formulary
