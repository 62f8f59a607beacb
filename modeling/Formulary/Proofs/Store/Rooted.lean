/-
# Nodes that a root leads to

A node is rooted if the chain of its parents ends at a root. Rooted nodes are all that is ever read: what
is read below a rooted node is rooted, so that the forest of a store is that of its rooted nodes alone
(`forest_filter`). Nothing else is asked of the store than that its identifiers are unique; chains of
parents may end at a parent that is missing, or run in a circle, as long as no root is below them.

Key definitions: `Store.top`, `Store.isRooted`.
Key theorems: `Store.isRooted_iff`, `Store.nodup_preorder`, `Store.tree_stable`, `Store.forest_filter`.
-/
import Formulary.Proofs.Store.Lineage

namespace Formulary
namespace Store

open Formulary.Tree

variable {store : Store} {node : Node} {above : List Node}

/-- The last node on the way up from a node, which is the node itself if nothing is above it. -/
def top (store : Store) (node : Node) : Node :=
  (store.ancestors node.id).getLast?.getD node

/-- Whether the chain of parents of a node ends at a root. -/
def isRooted (store : Store) (node : Node) : Bool :=
  (store.top node).parent.isNone

/-! ### The way up -/

/-- A chain of parents that ends without a parent has come to a root. -/
theorem climbs_ancestorsFrom {fuel : Nat} {seen : List String}
    (hnode : store.get? node.id = some node)
    (htop : ((store.ancestorsFrom fuel seen node.id).getLast?.getD node).parent = none) :
    store.Climbs node (store.ancestorsFrom fuel seen node.id) := by
  have hmem := (mem_of_get? hnode).1
  induction fuel generalizing seen node with
  | zero => exact ⟨hmem, htop⟩
  | succ fuel ih =>
    rw [ancestorsFrom, hnode, Option.bind_some] at htop ⊢
    cases hparent : node.parent with
    | none => exact ⟨hmem, hparent⟩
    | some parent =>
      -- If nothing follows, the chain ends at the node, which has a parent.
      rw [hparent] at htop
      by_cases hseen : seen.contains parent = true
      · simp only [if_pos hseen] at htop
        cases hparent.symm.trans htop
      · simp only [if_neg hseen] at htop ⊢
        cases howner : store.get? parent with
        | none =>
          simp only [howner] at htop
          cases hparent.symm.trans htop
        | some owner =>
          obtain ⟨howned, rfl⟩ := mem_of_get? howner
          simp only [howner, List.getLast?_cons, Option.getD_some] at htop ⊢
          exact ⟨hmem, hparent, ih howner htop howned⟩

theorem Climbs.top_parent : ∀ {node : Node} {above : List Node}, store.Climbs node above →
    (above.getLast?.getD node).parent = none
  | _, [], h => h.2
  | _, owner :: above, h => by
    rw [List.getLast?_cons, Option.getD_some]
    exact h.2.2.top_parent

/-- **A node is rooted if and only if there is a way up from it to a root.** -/
theorem isRooted_iff (hunique : (idsOf store.nodes).Nodup) (hnode : node ∈ store.nodes) :
    store.isRooted node = true ↔ ∃ above, store.Climbs node above := by
  rw [isRooted, Option.isNone_iff_eq_none, top]
  constructor
  · exact fun htop => ⟨_, climbs_ancestorsFrom (get?_of_unique hunique hnode) htop⟩
  · rintro ⟨above, h⟩
    rw [ancestors_of_climbs hunique h]
    exact h.top_parent

theorem Climbs.child {child : Node} (h : store.Climbs node above)
    (hchild : child ∈ store.childrenOf node.id) : store.Climbs child (node :: above) :=
  ⟨(mem_childrenOf.mp hchild).1, (mem_childrenOf.mp hchild).2, h⟩

theorem climbs_root (h : node ∈ store.roots) : store.Climbs node [] :=
  ⟨mem_nodes_of_mem_roots h, by simpa [roots] using (List.mem_filter.mp h).2⟩

theorem Climbs.length_lt (hunique : (idsOf store.nodes).Nodup) (h : store.Climbs node above) :
    above.length < store.size := by
  have hsubset : node :: above ⊆ store.nodes := List.cons_subset.mpr ⟨h.mem, h.subset⟩
  exact ((List.Nodup.of_map _ (h.nodup hunique)).subperm hsubset).length_le

/-! ### Trees of rooted nodes -/

theorem climbs_of_mem_tree {n : Node} {depth : Nat} (h : store.Climbs node above)
    (hn : n ∈ (store.tree depth node).preorder) : ∃ others, store.Climbs n others := by
  induction depth generalizing node above with
  | zero =>
    obtain rfl := List.mem_singleton.mp hn
    exact ⟨above, h⟩
  | succ depth ih =>
    rw [tree, Tree.preorder] at hn
    rcases List.mem_cons.mp hn with rfl | hn
    · exact ⟨above, h⟩
    · rw [← map_node_subtreesAll] at hn
      obtain ⟨s, hs, rfl⟩ := List.mem_map.mp hn
      obtain ⟨t, ht, hs⟩ := mem_subtreesAll_iff.mp hs
      obtain ⟨child, hchild, rfl⟩ := List.mem_map.mp ht
      refine ih (h.child (mem_childrenOf_of_mem_below hchild)) ?_
      exact map_node_subtrees (store.tree depth child) ▸ List.mem_map_of_mem hs

/-- All nodes of the forest are rooted. -/
theorem climbs_of_mem_preorder (h : node ∈ store.preorder) : ∃ above, store.Climbs node above := by
  rw [preorder, ← map_node_subtreesAll] at h
  obtain ⟨s, hs, rfl⟩ := List.mem_map.mp h
  obtain ⟨t, ht, hs⟩ := mem_subtreesAll_iff.mp hs
  obtain ⟨root, hroot, rfl⟩ := List.mem_map.mp ht
  exact climbs_of_mem_tree (climbs_root hroot)
    (map_node_subtrees (store.tree store.size root) ▸ List.mem_map_of_mem hs)

theorem children_of_mem_tree {s : Tree} : ∀ {depth : Nat} {node : Node},
    s ∈ (store.tree depth node).subtrees →
    s.children = [] ∨ s.children.map Tree.node = store.below s.node
  | 0, _, hs => by
    obtain rfl := List.mem_singleton.mp hs
    exact .inl rfl
  | depth + 1, node, hs => by
    rcases List.mem_cons.mp hs with rfl | hs
    · exact .inr (map_node_tree depth _)
    · obtain ⟨t, ht, hs⟩ := mem_subtreesAll_iff.mp hs
      obtain ⟨child, -, rfl⟩ := List.mem_map.mp ht
      exact children_of_mem_tree hs

/-- In the forest a node has either nothing below it or all that is read below it. -/
theorem children_of_mem_forest {s : Tree} (hs : s ∈ subtreesAll store.forest) :
    s.children = [] ∨ s.children.map Tree.node = store.below s.node := by
  obtain ⟨t, ht, hs⟩ := mem_subtreesAll_iff.mp hs
  obtain ⟨root, -, rfl⟩ := List.mem_map.mp ht
  exact children_of_mem_tree hs

/-- **No node is in the forest twice.** -/
theorem nodup_preorder (hunique : (idsOf store.nodes).Nodup) : (idsOf store.preorder).Nodup := by
  have hnodes : store.nodes.Nodup := List.Nodup.of_map _ hunique
  have hchildren : ∀ s ∈ subtreesAll store.forest, (s.children.map Tree.node).Nodup := by
    intro s hs
    rcases children_of_mem_forest hs with hnil | hbelow
    · rw [hnil]
      exact List.nodup_nil
    · rw [hbelow]
      exact nodup_below hnodes s.node
  have htop : (store.forest.map Tree.node).Nodup := by
    rw [forest, map_node_tree]
    exact hnodes.filter _
  have hclimbs : ∀ p ∈ lineagesAll [] store.forest, store.Climbs p.1 p.2 := by
    intro p hp
    refine @climbs_of_mem_lineagesAll store p.1 p.2 [] _ linked_forest (fun n hn => ?_)
      (fun _ _ h => by cases h) hp
    obtain ⟨above, habove⟩ := climbs_of_mem_preorder hn
    exact habove.mem
  rw [preorder, ← map_fst_lineagesAll [], idsOf, List.map_map]
  refine (nodup_lineagesAll htop hchildren).map_on fun p hp q hq hid => ?_
  -- The identifier tells the node, and the node the way up from it.
  have hnode := List.inj_on_of_nodup_map hunique (hclimbs p hp).mem (hclimbs q hq).mem hid
  have habove := hclimbs q hq
  rw [← hnode] at habove
  exact Prod.ext hnode ((hclimbs p hp).unique hunique habove)

/-- **The tree of a rooted node does not depend on the depth**, if there is depth enough for the nodes
that are not above it. -/
theorem tree_stable (hunique : (idsOf store.nodes).Nodup) {room : Nat}
    (h : store.Climbs node above) (hroom : store.size ≤ above.length + 1 + room) :
    ∀ {d e : Nat}, room ≤ d → room ≤ e → store.tree d node = store.tree e node := by
  induction room generalizing node above with
  | zero =>
    -- The nodes above fill the store, so that there is none below.
    have hbelow : store.below node = [] := by
      refine List.eq_nil_iff_forall_not_mem.mpr fun child hchild => ?_
      have hlt := (h.child (mem_childrenOf_of_mem_below hchild)).length_lt hunique
      rw [List.length_cons] at hlt
      omega
    have htree : ∀ d, store.tree d node = .mk node [] := by
      intro d
      cases d with
      | zero => rfl
      | succ d => rw [tree, hbelow, List.map_nil]
    intro d e _ _
    rw [htree d, htree e]
  | succ room ih =>
    intro d e hd he
    obtain ⟨d, rfl⟩ := Nat.exists_eq_succ_of_ne_zero (Nat.ne_zero_of_lt hd)
    obtain ⟨e, rfl⟩ := Nat.exists_eq_succ_of_ne_zero (Nat.ne_zero_of_lt he)
    rw [tree, tree]
    refine congrArg (Tree.mk node) (List.map_congr_left fun child hchild => ?_)
    refine ih (h.child (mem_childrenOf_of_mem_below hchild)) ?_ (by omega) (by omega)
    rw [List.length_cons]
    omega

/-! ### Stores without some of the nodes -/

section Filter

variable {keep : Node → Bool}

theorem filter_eq_self_of_climbs {nodes : List Node}
    (hkeep : ∀ n above, store.Climbs n above → keep n = true)
    (h : ∀ n ∈ nodes, ∃ above, store.Climbs n above) : nodes.filter keep = nodes :=
  List.filter_eq_self.mpr fun n hn => (h n hn).elim (hkeep n)

theorem childrenOf_filter (hkeep : ∀ n above, store.Climbs n above → keep n = true)
    (h : store.Climbs node above) :
    (Store.mk (store.nodes.filter keep)).childrenOf node.id = store.childrenOf node.id := by
  rw [childrenOf, List.filter_comm]
  exact filter_eq_self_of_climbs hkeep fun n hn => ⟨_, h.child hn⟩

theorem tree_filter (hkeep : ∀ n above, store.Climbs n above → keep n = true) :
    ∀ {depth : Nat} {node : Node} {above : List Node}, store.Climbs node above →
    (Store.mk (store.nodes.filter keep)).tree depth node = store.tree depth node
  | 0, _, _, _ => rfl
  | depth + 1, node, above, h => by
    have hbelow : (Store.mk (store.nodes.filter keep)).below node = store.below node := by
      unfold below argumentsOf
      rw [childrenOf_filter hkeep h]
    rw [tree, tree, hbelow]
    refine congrArg (Tree.mk node) (List.map_congr_left fun child hchild => ?_)
    exact tree_filter hkeep (h.child (mem_childrenOf_of_mem_below hchild))

/-- **Without nodes that are not rooted the forest is what it was.** -/
theorem forest_filter (hunique : (idsOf store.nodes).Nodup)
    (hkeep : ∀ n above, store.Climbs n above → keep n = true) :
    (Store.mk (store.nodes.filter keep)).forest = store.forest := by
  have hfiltered : (idsOf (store.nodes.filter keep)).Nodup :=
    hunique.sublist (List.filter_sublist.map _)
  have hle : (store.nodes.filter keep).length ≤ store.nodes.length := List.length_filter_le _ _
  have hroots : (Store.mk (store.nodes.filter keep)).roots = store.roots := by
    rw [roots, List.filter_comm]
    exact filter_eq_self_of_climbs hkeep fun n hn => ⟨[], climbs_root hn⟩
  rw [forest, forest, hroots]
  refine List.map_congr_left fun root hroot => ?_
  have hclimbs : (Store.mk (store.nodes.filter keep)).Climbs root [] :=
    climbs_root (hroots ▸ hroot)
  calc (Store.mk (store.nodes.filter keep)).tree (store.nodes.filter keep).length root
      = (Store.mk (store.nodes.filter keep)).tree store.size root :=
        tree_stable hfiltered hclimbs (Nat.le_add_left _ _) (Nat.le_refl _) hle
    _ = store.tree store.size root := tree_filter hkeep (climbs_root hroot)

end Filter

end Store
end Formulary
