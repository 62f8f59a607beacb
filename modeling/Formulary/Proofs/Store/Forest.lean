/-
# Stores that are forests

In a store without circles of parents the trees of the roots are complete: the number of nodes bounds
the height of a tree, since every step down leaves a node behind (`subtrees_tree`). If moreover the
identifiers are unique, the parents exist, and no child is left out below its parent, then every node is
in exactly one tree, and the list of the forest is the store in another order (`preorder_perm`).

Key definitions: `Store.ParentOf`, `Store.Under`, `Store.IsForest`, `Store.preorder`.
Key theorems: `Store.subtrees_tree`, `Store.preorder_perm`.
-/
import Mathlib.Data.Finset.Card
import Mathlib.Data.List.Count
import Mathlib.Logic.Relation
import Formulary.Proofs.Tree.Forest

namespace Formulary

namespace Tree

theorem mem_subtreesAll_iff {t : Tree} {ts : List Tree} :
    t ∈ subtreesAll ts ↔ ∃ u ∈ ts, t ∈ u.subtrees := by
  induction ts with
  | nil => simp [subtreesAll]
  | cons u rest ih =>
    rw [subtreesAll, List.mem_append, ih]
    simp

mutual

theorem mem_inner {q : List Tree} : ∀ {t : Tree}, q ∈ t.inner →
    ∃ s ∈ t.subtrees, s.node.kind = .group ∧ q = s.children
  | mk n children, hq => by
    by_cases hkind : n.kind = .group
    · rw [inner, if_pos hkind] at hq
      rcases List.mem_cons.mp hq with rfl | hq
      · exact ⟨_, List.mem_cons_self, hkind, rfl⟩
      · obtain ⟨s, hs, h⟩ := mem_innerAll hq
        exact ⟨s, List.mem_cons_of_mem _ hs, h⟩
    · rw [inner, if_neg hkind] at hq
      obtain ⟨s, hs, h⟩ := mem_innerAll hq
      exact ⟨s, List.mem_cons_of_mem _ hs, h⟩

/-- The sequences below trees are the children of their groups. -/
theorem mem_innerAll {q : List Tree} : ∀ {ts : List Tree}, q ∈ innerAll ts →
    ∃ s ∈ subtreesAll ts, s.node.kind = .group ∧ q = s.children
  | t :: rest, hq => by
    rcases List.mem_append.mp hq with hq | hq
    · obtain ⟨s, hs, h⟩ := mem_inner hq
      exact ⟨s, List.mem_append_left _ hs, h⟩
    · obtain ⟨s, hs, h⟩ := mem_innerAll hq
      exact ⟨s, List.mem_append_right _ hs, h⟩

end

mutual

theorem subtrees_subset_tree {s : Tree} : ∀ {t : Tree}, s ∈ t.subtrees → s.subtrees ⊆ t.subtrees
  | mk n children, hs => by
    rw [subtrees, List.mem_cons] at hs
    rcases hs with rfl | hs
    · exact List.Subset.refl _
    · exact List.subset_cons_of_subset _ (subtrees_subset_of_mem hs)

/-- What is below a tree of a forest is in the forest. -/
theorem subtrees_subset_of_mem {s : Tree} : ∀ {ts : List Tree}, s ∈ subtreesAll ts →
    s.subtrees ⊆ subtreesAll ts
  | t :: rest, hs => by
    rcases List.mem_append.mp hs with hs | hs
    · exact List.subset_append_of_subset_left _ (subtrees_subset_tree hs)
    · exact List.subset_append_of_subset_right _ (subtrees_subset_of_mem hs)

end

mutual

/-- Every node of a tree is at its top or right below a node of it. -/
theorem perm_preorder : ∀ t : Tree,
    t.preorder.Perm (t.node :: t.subtrees.flatMap fun s => s.children.map node)
  | mk n children => by
    rw [preorder, subtrees, List.flatMap_cons]
    exact (perm_preorderAll children).cons n

theorem perm_preorderAll : ∀ ts : List Tree,
    (preorderAll ts).Perm (ts.map node ++ (subtreesAll ts).flatMap fun s => s.children.map node)
  | [] => .nil
  | t :: rest => by
    have hperm := (perm_preorder t).append (perm_preorderAll rest)
    rw [preorderAll, subtreesAll, List.flatMap_append, List.map_cons, List.cons_append]
    rw [List.cons_append] at hperm
    refine hperm.trans (List.Perm.cons _ ?_)
    rw [← List.append_assoc, ← List.append_assoc]
    exact List.perm_append_comm.append_right _

end

end Tree

namespace Store

open Formulary.Tree

variable {store : Store}

/-! ### Parents -/

/-- Whether a node with the identifier `child` names `parent` as its parent. -/
def ParentOf (store : Store) (child parent : String) : Prop :=
  ∃ node ∈ store.nodes, node.id = child ∧ node.parent = some parent

/-- Whether a chain of parents leads from one node up to another. -/
def Under (store : Store) (node above : Node) : Prop :=
  Relation.TransGen store.ParentOf node.id above.id

/-- Whether every node is reached from one root on exactly one way. -/
structure IsForest (store : Store) : Prop where
  unique : (idsOf store.nodes).Nodup
  parents : ∀ node ∈ store.nodes, ∀ parent, node.parent = some parent →
    ∃ owner ∈ store.nodes, owner.id = parent
  acyclic : ∀ id, ¬Relation.TransGen store.ParentOf id id
  /-- The children of a node are among the nodes that are read below it. -/
  reached : ∀ node ∈ store.nodes, ∀ child ∈ store.childrenOf node.id, child ∈ store.below node

/-- There is no circle of parents if some measure decreases from every node to its parent. -/
theorem acyclic_of_measure (measure : String → Nat)
    (h : ∀ node ∈ store.nodes, ∀ parent, node.parent = some parent →
      measure parent < measure node.id) (id : String) :
    ¬Relation.TransGen store.ParentOf id id := by
  have hlt : ∀ {a b : String}, Relation.TransGen store.ParentOf a b → measure b < measure a := by
    intro a b hab
    induction hab with
    | single hstep =>
      obtain ⟨node, hnode, rfl, hparent⟩ := hstep
      exact h node hnode _ hparent
    | tail _ hstep ih =>
      obtain ⟨node, hnode, rfl, hparent⟩ := hstep
      exact (h node hnode _ hparent).trans ih
  exact fun hcircle => Nat.lt_irrefl _ (hlt hcircle)

theorem IsForest.eq_of_id (h : store.IsForest) {a b : Node} (ha : a ∈ store.nodes)
    (hb : b ∈ store.nodes) (hid : a.id = b.id) : a = b :=
  List.inj_on_of_nodup_map h.unique ha hb hid

theorem IsForest.nodup (h : store.IsForest) : store.nodes.Nodup :=
  List.Nodup.of_map _ h.unique

theorem mem_childrenOf {node : Node} {id : String} :
    node ∈ store.childrenOf id ↔ node ∈ store.nodes ∧ node.parent = some id := by
  simp [childrenOf]

theorem mem_argumentsOf {node : Node} {id : String} :
    node ∈ store.argumentsOf id ↔ node ∈ store.childrenOf id ∧ node.isArgument = true := by
  rw [argumentsOf, (sortBy_perm _ _).mem_iff, List.mem_filter]

/-- The arguments of a function are in the order of their slots. -/
theorem pairwise_argumentsOf (id : String) :
    (store.argumentsOf id).Pairwise fun a b => a.slot.getD 0 ≤ b.slot.getD 0 := by
  have hsorted : (store.argumentsOf id).Pairwise fun a b =>
      decide (a.slot.getD 0 ≤ b.slot.getD 0) = true := by
    refine sortBy_pairwise (fun a b => ?_) (fun a b c hab hbc => ?_) _
    · simpa using Int.le_total _ _
    · rw [decide_eq_true_eq] at hab hbc ⊢
      exact Int.le_trans hab hbc
  exact hsorted.imp of_decide_eq_true

theorem below_of_isLeaf {node : Node} (h : node.kind.isLeaf = true) : store.below node = [] := by
  cases hkind : node.kind with
  | function | group =>
    rw [hkind] at h
    cases h
  | _ => rw [below, hkind]

theorem below_of_function {node : Node} (h : node.kind = .function) :
    store.below node = store.argumentsOf node.id := by
  rw [below, h]

theorem below_of_group {node : Node} (h : node.kind = .group) :
    store.below node = store.childrenOf node.id := by
  rw [below, h]

/-- What is read below a node are children of it. -/
theorem mem_childrenOf_of_mem_below {node child : Node} (h : child ∈ store.below node) :
    child ∈ store.childrenOf node.id := by
  unfold below at h
  split at h
  · exact h
  · exact (mem_argumentsOf.mp h).1
  all_goals cases h

theorem parent_of_mem_below {node child : Node} (h : child ∈ store.below node) :
    child.parent = some node.id :=
  (mem_childrenOf.mp (mem_childrenOf_of_mem_below h)).2

theorem nodup_below (h : store.nodes.Nodup) (node : Node) : (store.below node).Nodup := by
  unfold below
  split
  · exact h.filter _
  · rw [argumentsOf, (sortBy_perm _ _).nodup_iff]
    exact (h.filter _).filter _
  all_goals exact List.nodup_nil

theorem under_of_mem_childrenOf {node child : Node} (h : child ∈ store.childrenOf node.id) :
    store.Under child node := by
  obtain ⟨hmem, hparent⟩ := mem_childrenOf.mp h
  exact .single ⟨child, hmem, rfl, hparent⟩

/-! ### Counting nodes -/

open Classical in
/-- How many nodes have a property. -/
noncomputable def countOf (store : Store) (P : Node → Prop) : Nat :=
  (store.nodes.toFinset.filter P).card

theorem countOf_lt {P Q : Node → Prop} (h : ∀ n, P n → Q n) {m : Node} (hm : m ∈ store.nodes)
    (hQ : Q m) (hP : ¬P m) : store.countOf P < store.countOf Q := by
  classical
  refine Finset.card_lt_card (Finset.ssubset_iff_of_subset ?_ |>.mpr ⟨m, ?_, ?_⟩)
  · exact Finset.monotone_filter_right _ fun n _ => h n
  · simp [hm, hQ]
  · simp [hP]

theorem countOf_le_size (P : Node → Prop) : store.countOf P ≤ store.size := by
  classical
  exact (Finset.card_filter_le _ _).trans (List.toFinset_card_le _)

/-- The number of nodes below a node. -/
noncomputable def rank (store : Store) (node : Node) : Nat :=
  store.countOf fun n => store.Under n node

/-- The number of nodes above a node. -/
noncomputable def depth (store : Store) (node : Node) : Nat :=
  store.countOf fun n => store.Under node n

theorem rank_lt_of_mem_childrenOf (h : ∀ id, ¬Relation.TransGen store.ParentOf id id)
    {node child : Node} (hchild : child ∈ store.childrenOf node.id) :
    store.rank child < store.rank node :=
  countOf_lt (fun _ hn => Relation.TransGen.trans hn (under_of_mem_childrenOf hchild))
    (mem_childrenOf.mp hchild).1 (under_of_mem_childrenOf hchild) (h child.id)

theorem depth_lt_of_mem_childrenOf (h : ∀ id, ¬Relation.TransGen store.ParentOf id id)
    {node child : Node} (hnode : node ∈ store.nodes) (hchild : child ∈ store.childrenOf node.id) :
    store.depth node < store.depth child :=
  countOf_lt (fun _ hn => Relation.TransGen.trans (under_of_mem_childrenOf hchild) hn) hnode
    (under_of_mem_childrenOf hchild) (h node.id)

theorem rank_lt_size (h : ∀ id, ¬Relation.TransGen store.ParentOf id id) {node : Node}
    (hnode : node ∈ store.nodes) : store.rank node < store.size :=
  (countOf_lt (fun _ _ => trivial) hnode trivial (h node.id)).trans_le
    (countOf_le_size fun _ => True)

/-! ### Trees -/

theorem node_tree (depth : Nat) (node : Node) : (store.tree depth node).node = node := by
  cases depth <;> rfl

theorem map_node_tree (depth : Nat) (nodes : List Node) :
    (nodes.map (store.tree depth)).map Tree.node = nodes := by
  rw [List.map_map]
  exact (List.map_congr_left fun node _ => node_tree depth node).trans (List.map_id' nodes)

theorem linkedAll_of_forall {parent : Option String} : ∀ {ts : List Tree},
    (∀ t ∈ ts, t.Linked parent) → LinkedAll parent ts
  | [], _ => trivial
  | t :: _, h => ⟨h t List.mem_cons_self,
      linkedAll_of_forall fun u hu => h u (List.mem_cons_of_mem _ hu)⟩

theorem linked_tree : ∀ (depth : Nat) (node : Node), (store.tree depth node).Linked node.parent
  | 0, _ => ⟨rfl, trivial⟩
  | depth + 1, node => by
    refine ⟨rfl, linkedAll_of_forall fun t ht => ?_⟩
    obtain ⟨child, hchild, rfl⟩ := List.mem_map.mp ht
    rw [← parent_of_mem_below hchild]
    exact linked_tree depth child

theorem linked_forest : LinkedAll none store.forest := by
  refine linkedAll_of_forall fun t ht => ?_
  obtain ⟨root, hroot, rfl⟩ := List.mem_map.mp ht
  have hparent : root.parent = none := by simpa [roots] using (List.mem_filter.mp hroot).2
  rw [← hparent]
  exact linked_tree _ root

/-- **A tree that is deep enough is complete.** -/
theorem subtrees_tree (h : ∀ id, ¬Relation.TransGen store.ParentOf id id) {depth : Nat}
    {node : Node} (hnode : node ∈ store.nodes) (hrank : store.rank node < depth) :
    ∀ t ∈ (store.tree depth node).subtrees,
      t.node ∈ store.nodes ∧ t.children.map Tree.node = store.below t.node := by
  induction depth generalizing node with
  | zero => omega
  | succ depth ih =>
    intro t ht
    rw [tree, subtrees, List.mem_cons] at ht
    rcases ht with rfl | ht
    · exact ⟨hnode, map_node_tree depth _⟩
    · obtain ⟨u, hu, ht⟩ := mem_subtreesAll_iff.mp ht
      obtain ⟨child, hchild, rfl⟩ := List.mem_map.mp hu
      have hchild := mem_childrenOf_of_mem_below hchild
      have hlt := rank_lt_of_mem_childrenOf h hchild
      exact ih (mem_childrenOf.mp hchild).1 (by omega) t ht

theorem mem_nodes_of_mem_roots {node : Node} (h : node ∈ store.roots) : node ∈ store.nodes :=
  (List.mem_filter.mp h).1

theorem subtrees_forest (h : ∀ id, ¬Relation.TransGen store.ParentOf id id) {t : Tree}
    (ht : t ∈ subtreesAll store.forest) :
    t.node ∈ store.nodes ∧ t.children.map Tree.node = store.below t.node := by
  obtain ⟨u, hu, ht⟩ := mem_subtreesAll_iff.mp ht
  obtain ⟨root, hroot, rfl⟩ := List.mem_map.mp hu
  have hnode := mem_nodes_of_mem_roots hroot
  exact subtrees_tree h hnode (rank_lt_size h hnode) t ht

/-! ### The list of the forest -/

/-- The nodes in reading order: each before those below it. -/
def preorder (store : Store) : List Node :=
  preorderAll store.forest

theorem mem_nodes_of_mem_preorder (h : ∀ id, ¬Relation.TransGen store.ParentOf id id) {node : Node}
    (hnode : node ∈ store.preorder) : node ∈ store.nodes := by
  rw [preorder, ← map_node_subtreesAll] at hnode
  obtain ⟨t, ht, rfl⟩ := List.mem_map.mp hnode
  exact (subtrees_forest h ht).1

/-- The list of the forest has the roots, and what is read below each of its nodes. -/
theorem perm_roots_append_below (h : ∀ id, ¬Relation.TransGen store.ParentOf id id) :
    store.preorder.Perm (store.roots ++ store.preorder.flatMap store.below) := by
  have hperm := perm_preorderAll store.forest
  have hbelow : (subtreesAll store.forest).flatMap (fun t => t.children.map Tree.node) =
      store.preorder.flatMap store.below := by
    rw [preorder, ← map_node_subtreesAll, List.flatMap_map]
    exact List.flatMap_congr fun t ht => (subtrees_forest h ht).2
  rw [hbelow, forest, map_node_tree] at hperm
  exact hperm

theorem sum_map_ite_eq {x : Node} : ∀ nodes : List Node,
    (nodes.map fun y => if y = x then 1 else 0).sum = nodes.count x
  | [] => rfl
  | y :: rest => by
    rw [List.map_cons, List.sum_cons, sum_map_ite_eq rest, List.count_cons, Nat.add_comm]
    simp

/-- A child is read below its parent, once, and below no other node. -/
theorem IsForest.count_below (h : store.IsForest) {node owner other : Node}
    (howner : owner ∈ store.nodes) (hchild : node ∈ store.childrenOf owner.id)
    (hother : other ∈ store.nodes) :
    (store.below other).count node = if other = owner then 1 else 0 := by
  by_cases heq : other = owner
  · rw [if_pos heq, heq]
    exact List.count_eq_one_of_mem (nodup_below h.nodup owner) (h.reached owner howner node hchild)
  · rw [if_neg heq]
    refine List.count_eq_zero_of_not_mem fun hmem => heq ?_
    have hsame := (parent_of_mem_below hmem).symm.trans (mem_childrenOf.mp hchild).2
    exact h.eq_of_id hother howner (Option.some.inj hsame)

/-- Every node is in the list of the forest exactly once. -/
theorem IsForest.count_preorder (h : store.IsForest) : ∀ {node : Node}, node ∈ store.nodes →
    store.preorder.count node = 1 := by
  suffices hall : ∀ (d : Nat) (node : Node), store.depth node < d → node ∈ store.nodes →
      store.preorder.count node = 1 from fun {node} hnode => hall _ node (Nat.lt_succ_self _) hnode
  intro d
  induction d with
  | zero => intro node hd; omega
  | succ d ih =>
    intro node hd hnode
    have hcount := (perm_roots_append_below h.acyclic).count_eq node
    rw [List.count_append, List.count_flatMap] at hcount
    cases hparent : node.parent with
    | none =>
      have hroots : store.roots.count node = 1 := by
        rw [roots, List.count_filter (by simp [hparent])]
        exact List.count_eq_one_of_mem h.nodup hnode
      have hbelow : (store.preorder.map (List.count node ∘ store.below)).sum = 0 := by
        refine List.sum_eq_zero fun n hn => ?_
        obtain ⟨y, -, rfl⟩ := List.mem_map.mp hn
        refine List.count_eq_zero_of_not_mem fun hmem => ?_
        have hsome := parent_of_mem_below hmem
        rw [hparent] at hsome
        cases hsome
      rw [hcount, hroots, hbelow]
    | some parent =>
      obtain ⟨owner, howner, rfl⟩ := h.parents node hnode parent hparent
      have hchild : node ∈ store.childrenOf owner.id := mem_childrenOf.mpr ⟨hnode, hparent⟩
      have hdepth := depth_lt_of_mem_childrenOf h.acyclic howner hchild
      have hroots : store.roots.count node = 0 := by
        refine List.count_eq_zero_of_not_mem fun hmem => ?_
        have hnone := (List.mem_filter.mp hmem).2
        rw [hparent] at hnone
        cases hnone
      have hbelow : store.preorder.map (List.count node ∘ store.below) =
          store.preorder.map fun y => if y = owner then 1 else 0 :=
        List.map_congr_left fun y hy =>
          h.count_below howner hchild (mem_nodes_of_mem_preorder h.acyclic hy)
      rw [hcount, hroots, hbelow, sum_map_ite_eq, ih owner (by omega) howner]

/-- **The list of the forest is the store in another order.** -/
theorem IsForest.preorder_perm (h : store.IsForest) : store.preorder.Perm store.nodes := by
  refine List.perm_iff_count.mpr fun node => ?_
  by_cases hnode : node ∈ store.nodes
  · rw [h.count_preorder hnode, List.count_eq_one_of_mem h.nodup hnode]
  · rw [List.count_eq_zero_of_not_mem hnode, List.count_eq_zero_of_not_mem fun hmem =>
      hnode (mem_nodes_of_mem_preorder h.acyclic hmem)]

end Store
end Formulary
