/-
# Recasting calls

A call is recast when its node is given another function. In a session of such edits all nodes but the
functions and the new argument groups stay what they were, nothing comes to stand below a new group, and
parentheses are never nested more deeply than before (`Session.Kept.of_run`).

Key definitions: `Session.Recasts`, `Store.Nested`, `Session.Kept`.
Key theorems: `Session.Recasts.cases`, `Session.Kept.of_run`, `Store.nestingAll_forest_le`.
-/
import Formulary.Session
import Formulary.Proofs.Store.Ancestors
import Formulary.Proofs.Store.Expressible
import Formulary.Proofs.Tree.Terms

namespace Formulary

/-- Whether one session becomes the other when a function node is given a function. -/
def Session.Recasts (before after : Session) : Prop :=
  ∃ id node name, before.store.get? id = some node ∧ node.kind = .function ∧
    (before.apply (.setFunction id (some name))).2 = after

/-- A node as a call of a function. -/
def Node.recast (node : Node) (name : Option String) : Node :=
  { node with kind := .function, function := name }

/-- How many parentheses are written right around what is below a node. -/
def Node.parentheses (node : Node) : Nat :=
  if node.kind = .function ∨ node.kind = .group ∧ node.slot = none then 1 else 0

/-- Whether a text has what a node holds, if the node is a value or a reference. -/
def Node.Spelled (catalog : Catalog) (node : Node) : Prop :=
  match node.kind with
  | .value => ∃ n, node.value = some n ∧ n.Plain
  | .reference => ∃ id, node.reference = some id ∧ catalog.Resolves id
  | _ => True

namespace Store

open Formulary.Tree

variable {store after : Store} {node : Node} {id : String} {catalog : Catalog}

/-! ### One edit -/

theorem mem_putAt {new n : Node} {nodes : List Node} (h : n ∈ putAt id new nodes) :
    n = new ∨ n ∈ nodes := by
  induction nodes with
  | nil => cases h
  | cons m rest ih =>
    rw [putAt] at h
    split at h
    · rcases List.mem_cons.mp h with rfl | h
      · exact .inl rfl
      · exact .inr (List.mem_cons_of_mem _ h)
    · rcases List.mem_cons.mp h with rfl | h
      · exact .inr List.mem_cons_self
      · exact (ih h).imp_right (List.mem_cons_of_mem _)

/-- **Setting the function of a node** replaces the node, takes out others, and puts as many empty groups
behind them as the function has arguments. -/
theorem setFunction_of_get? (hget : store.get? id = some node) (name : Option String)
    (fresh : Nat → String) : ∃ kept : List Node,
      kept.Sublist (putAt id (node.recast name) store.nodes) ∧
      store.setFunction id name fresh =
        .ok (emptyArguments id fresh ((Signature.fixedArity? name).getD 0),
          ⟨kept ++ emptyArguments id fresh ((Signature.fixedArity? name).getD 0)⟩) := by
  have hupdate : store.update id [.kind .function, .function name] =
      .ok (node.recast name, ⟨putAt id (node.recast name) store.nodes⟩) := by
    rw [update, require, hget]
    rfl
  cases harity : Signature.fixedArity? name with
  | none =>
    refine ⟨_, List.Sublist.refl _, ?_⟩
    rw [setFunction, hupdate, Option.getD_none, emptyArguments, List.range_zero, List.map_nil,
      List.append_nil]
    simp only [harity]
    rfl
  | some count =>
    let recast : Store := ⟨putAt id (node.recast name) store.nodes⟩
    refine ⟨recast.pruned ((recast.argumentsOf id).map (·.id)), List.filter_sublist, ?_⟩
    rw [setFunction, hupdate]
    simp only [harity]
    rfl

/-- A call is recast: its node is another one, and empty groups may come in. -/
theorem setFunction_eq (hget : store.get? id = some node) (name : Option String)
    (fresh : Nat → String) : ∃ count after,
      store.setFunction id name fresh = .ok (emptyArguments id fresh count, after) ∧
      ∀ n ∈ after.nodes, n ∈ store.nodes ∨ n = node.recast name ∨
        n ∈ emptyArguments id fresh count := by
  obtain ⟨kept, hkept, hedit⟩ := setFunction_of_get? hget name fresh
  refine ⟨_, _, hedit, fun n hn => ?_⟩
  rcases List.mem_append.mp hn with hn | hn
  · exact (mem_putAt (hkept.subset hn)).symm.imp_right .inl
  · exact .inr (.inr hn)

end Store

/-- **What an edit can leave.** The recast node stays where it is, and new groups belong to it. -/
theorem Session.Recasts.cases {before after : Session} (h : before.Recasts after) :
    ∃ node ∈ before.store.nodes, ∃ name, node.kind = .function ∧ before.issued ≤ after.issued ∧
      ∀ n ∈ after.store.nodes, n ∈ before.store.nodes ∨ n = node.recast (some name) ∨
        ∃ k slot, before.issued < k ∧ k ≤ after.issued ∧
          n = .ofGroup (nodeId k) (some node.id) (some slot) := by
  obtain ⟨id, node, name, hget, hkind, rfl⟩ := h
  obtain ⟨hnode, rfl⟩ := Store.mem_of_get? hget
  obtain ⟨count, after, hedit, hnodes⟩ := Store.setFunction_eq hget (some name)
    fun slot => nodeId (before.issued + slot + 1)
  have hlength : (Store.emptyArguments node.id (fun slot => nodeId (before.issued + slot + 1))
      count).length = count := by rw [Store.emptyArguments, List.length_map, List.length_range]
  refine ⟨node, hnode, name, hkind, ?_, fun n hn => ?_⟩
  · rw [apply, hedit]
    exact Nat.le_add_right _ _
  · rw [apply, hedit] at hn ⊢
    rcases hnodes n hn with hn | rfl | hn
    · exact .inl hn
    · exact .inr (.inl rfl)
    · obtain ⟨slot, hslot, rfl⟩ := List.mem_map.mp hn
      have hlt := List.mem_range.mp hslot
      refine .inr (.inr ⟨before.issued + slot + 1, slot, by omega, ?_, rfl⟩)
      simp only [hlength]
      omega

namespace Store

open Formulary.Tree

variable {store after : Store} {node : Node} {catalog : Catalog}

/-! ### Nesting -/

theorem nesting_eq (t : Tree) : t.nesting = t.node.parentheses + nestingAll t.children := by
  cases t
  rfl

/-- Whether a node stands inside so many parentheses, its own included. -/
inductive Nested (store : Store) : Node → Nat → Prop
  | root {node : Node} (h : node ∈ store.nodes) (hparent : node.parent = none) :
    Nested store node node.parentheses
  | child {owner node : Node} {d : Nat} (howner : Nested store owner d) (h : node ∈ store.nodes)
    (hparent : node.parent = some owner.id) : Nested store node (d + node.parentheses)

theorem nestingAll_le_iff {ts : List Tree} {n : Nat} :
    nestingAll ts ≤ n ↔ ∀ t ∈ ts, t.nesting ≤ n := by
  induction ts with
  | nil => simp [nestingAll]
  | cons t rest ih => simp [nestingAll, ih]

/-- In a forest no node stands inside more parentheses than are nested there. -/
theorem IsForest.nested_le (h : store.IsForest) {d : Nat} (hnested : store.Nested node d) :
    d ≤ nestingAll store.forest := by
  suffices htree : ∃ t ∈ subtreesAll store.forest, t.node = node ∧
      d + nestingAll t.children ≤ nestingAll store.forest by
    obtain ⟨t, -, -, hle⟩ := htree
    omega
  induction hnested with
  | @root node hnode hparent =>
    have hroot : store.tree store.size node ∈ store.forest :=
      List.mem_map_of_mem (List.mem_filter.mpr ⟨hnode, by rw [hparent]; rfl⟩)
    refine ⟨_, mem_subtreesAll hroot, node_tree _ _, ?_⟩
    have hle := nestingAll_le_iff.mp (Nat.le_refl _) _ hroot
    rwa [nesting_eq, node_tree] at hle
  | @child owner node d howner hnode hparent ih =>
    obtain ⟨t, ht, rfl, hle⟩ := ih
    obtain ⟨hmem, hbelow⟩ := subtrees_forest h.acyclic ht
    have hreached := h.reached t.node hmem node (mem_childrenOf.mpr ⟨hnode, hparent⟩)
    rw [← hbelow] at hreached
    obtain ⟨s, hs, rfl⟩ := List.mem_map.mp hreached
    have hsub : s ∈ subtreesAll store.forest := by
      refine subtrees_subset_of_mem ht ?_
      obtain ⟨n, children⟩ := t
      exact List.mem_cons_of_mem _ (mem_subtreesAll hs)
    refine ⟨s, hsub, rfl, ?_⟩
    have hchild := nestingAll_le_iff.mp (Nat.le_refl _) _ hs
    have hnesting := nesting_eq s
    omega

/-- Parentheses in trees are nested around nodes of the store. -/
theorem nesting_tree_le {limit : Nat} (h : ∀ node d, store.Nested node d → d ≤ limit) (depth : Nat)
    {d : Nat} (hnested : store.Nested node d) :
    d + nestingAll (store.tree depth node).children ≤ limit := by
  induction depth generalizing node d with
  | zero => exact h node d hnested
  | succ depth ih =>
    have hle : nestingAll ((store.below node).map (store.tree depth)) ≤ limit - d := by
      refine nestingAll_le_iff.mpr fun t ht => ?_
      obtain ⟨child, hchild, rfl⟩ := List.mem_map.mp ht
      obtain ⟨hmem, hparent⟩ := mem_childrenOf.mp (mem_childrenOf_of_mem_below hchild)
      have hbelow := ih (hnested.child hmem hparent)
      rw [nesting_eq, node_tree]
      omega
    have hown := h node d hnested
    rw [tree, Tree.children]
    omega

/-- If no node stands inside more parentheses, no more are nested in the forest. -/
theorem nestingAll_forest_le {limit : Nat} (h : ∀ node d, store.Nested node d → d ≤ limit) :
    nestingAll store.forest ≤ limit := by
  refine nestingAll_le_iff.mpr fun t ht => ?_
  obtain ⟨root, hroot, rfl⟩ := List.mem_map.mp ht
  have hparent : root.parent = none := by simpa [roots] using (List.mem_filter.mp hroot).2
  have hbelow := nesting_tree_le h store.size
    (.root (mem_nodes_of_mem_roots hroot) hparent)
  rw [nesting_eq, node_tree]
  omega

end Store

/-! ### Runs of edits -/

namespace Session

/-- What recasting calls leaves as it is. -/
structure Kept (catalog : Catalog) (limit : Nat) (session : Session) : Prop where
  spelled : ∀ node ∈ session.store.nodes, node.Spelled catalog
  /-- No identifier that is still to be issued is in use. -/
  fresh : ∀ node ∈ session.store.nodes, ∀ k > session.issued,
    node.id ≠ nodeId k ∧ node.parent ≠ some (nodeId k)
  nested : ∀ node d, session.store.Nested node d → d ≤ limit

variable {catalog : Catalog} {limit : Nat} {before after : Session}

/-- Where a node stands after an edit: where one with its identifier stood before, or as a new group
where its function stood. -/
theorem Recasts.nested (h : before.Recasts after) (hkept : before.Kept catalog limit) {node : Node}
    {d : Nat} (hnested : after.store.Nested node d) :
    (∃ old, old.id = node.id ∧ before.store.Nested old d) ∨
      (∃ k > before.issued, node.id = nodeId k) ∧ ∃ old, before.store.Nested old d := by
  obtain ⟨call, hcall, name, hkind, -, hnodes⟩ := h.cases
  -- A node is one that was there, but for the function of the call, or a new group.
  have hold : ∀ n ∈ after.store.nodes,
      (∃ old ∈ before.store.nodes, old.id = n.id ∧ old.parent = n.parent ∧
        old.parentheses = n.parentheses) ∨
      ∃ k > before.issued, n.id = nodeId k ∧ n.parent = some call.id ∧ n.parentheses = 0 := by
    intro n hn
    rcases hnodes n hn with hn | rfl | ⟨k, slot, hk, -, rfl⟩
    · exact .inl ⟨n, hn, rfl, rfl, rfl⟩
    · exact .inl ⟨call, hcall, rfl, rfl, by simp [Node.parentheses, Node.recast, hkind]⟩
    · exact .inr ⟨k, hk, rfl, rfl, rfl⟩
  induction hnested with
  | @root node hnode hparent =>
    rcases hold node hnode with ⟨old, hmem, hid, hsame, hown⟩ | ⟨k, -, -, howner, -⟩
    · rw [← hown]
      exact .inl ⟨old, hid, .root hmem (hsame.trans hparent)⟩
    · rw [howner] at hparent
      cases hparent
  | @child owner node d howner hnode hparent ih =>
    rcases ih with ⟨above, habove, hnested⟩ | ⟨⟨k, hk, hid⟩, -⟩
    · rcases hold node hnode with ⟨old, hmem, hid, hsame, hown⟩ | ⟨j, hj, hid, -, hzero⟩
      · rw [← hown]
        refine .inl ⟨old, hid, hnested.child hmem ?_⟩
        rw [hsame, hparent, habove]
      · rw [hzero]
        exact .inr ⟨⟨j, hj, hid⟩, above, hnested⟩
    · -- Nothing stands below a new group.
      rcases hold node hnode with ⟨old, hmem, -, hsame, -⟩ | ⟨j, -, -, hcaller, -⟩
      · refine absurd ?_ (hkept.fresh old hmem k hk).2
        rw [hsame, hparent, hid]
      · rw [hcaller, hid] at hparent
        exact absurd (Option.some.inj hparent) (hkept.fresh call hcall k hk).1

/-- **An edit keeps what it should.** -/
theorem Kept.of_recasts (hkept : before.Kept catalog limit) (h : before.Recasts after) :
    after.Kept catalog limit := by
  obtain ⟨call, hcall, name, hkind, hissued, hnodes⟩ := h.cases
  refine ⟨fun n hn => ?_, fun n hn j hj => ?_, fun n d hnested => ?_⟩
  · rcases hnodes n hn with hn | rfl | ⟨k, slot, -, -, rfl⟩
    · exact hkept.spelled n hn
    · exact trivial
    · exact trivial
  · rcases hnodes n hn with hn | rfl | ⟨k, slot, -, hk, rfl⟩
    · exact hkept.fresh n hn j (by omega)
    · exact hkept.fresh call hcall j (by omega)
    · refine ⟨fun heq => ?_, fun heq => ?_⟩
      · have hkj := nodeId_injective heq
        omega
      · exact (hkept.fresh call hcall j (by omega)).1 (Option.some.inj heq)
  · rcases h.nested hkept hnested with ⟨old, -, hold⟩ | ⟨-, old, hold⟩
    · exact hkept.nested old d hold
    · exact hkept.nested old d hold

/-- **A run of edits keeps what it should.** -/
theorem Kept.of_run (hkept : before.Kept catalog limit)
    (h : Relation.ReflTransGen Recasts before after) : after.Kept catalog limit := by
  induction h with
  | refl => exact hkept
  | tail _ hstep ih => exact ih.of_recasts hstep

end Session
end Formulary
