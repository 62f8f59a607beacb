/-
# The forest of a list of nodes

Trees are listed in reading order, each node before those below it. In the list of a forest whose
nodes name the right parents, under identifiers of which no two are the same, the children of a node
are the nodes right below it (`childrenOf_preorder`), so that a regular forest is that of its list
(`forest_preorder`), and its sequences are those of the list (`sequences_preorder`).

Key definitions: `Tree.preorder`, `Tree.Linked`, `Tree.sequences`, `Store.sequences`, `Node.role`.
Key theorems: `Store.forest_preorder`, `Store.sequences_preorder`.
-/
import Mathlib.Data.List.Nodup
import Formulary.Proofs.Tree.Outline

namespace Formulary

/-- The identifiers of nodes. -/
def idsOf (nodes : List Node) : List String :=
  nodes.map (·.id)

/-- The role of a node in a sequence. -/
def Node.role (node : Node) : Role :=
  match node.kind with
  | .reference | .value => .operand
  | .operator => .ofOperator (node.operator.getD "")
  | .function => .ofCall (node.function.getD "")
  | .group => .group

/-- The sequences of a store: the roots, and the children of each group. -/
def Store.sequences (store : Store) : List (List Node) :=
  store.roots :: (store.nodes.filter (·.kind = .group)).map fun node => store.childrenOf node.id

namespace Tree

/-! ### Lists of trees -/

mutual

/-- The nodes of a tree in reading order. -/
def preorder : Tree → List Node
  | mk node children => node :: preorderAll children

/-- The nodes of trees in reading order. -/
def preorderAll : List Tree → List Node
  | [] => []
  | tree :: rest => tree.preorder ++ preorderAll rest

end

mutual

/-- A tree and all trees below it, in reading order. -/
def subtrees : Tree → List Tree
  | mk node children => mk node children :: subtreesAll children

/-- Trees and all trees below them, in reading order. -/
def subtreesAll : List Tree → List Tree
  | [] => []
  | tree :: rest => tree.subtrees ++ subtreesAll rest

end

mutual

/-- Whether the nodes of a tree name their parents, the top node the given one. -/
def Linked (parent : Option String) : Tree → Prop
  | mk node children => node.parent = parent ∧ LinkedAll (some node.id) children

/-- Whether the nodes of trees name their parents, the top nodes the given one. -/
def LinkedAll (parent : Option String) : List Tree → Prop
  | [] => True
  | tree :: rest => tree.Linked parent ∧ LinkedAll parent rest

end

mutual

/-- The sequences below a tree. -/
def inner : Tree → List (List Tree)
  | mk node children =>
    if node.kind = .group then children :: innerAll children else innerAll children

/-- The sequences below trees. -/
def innerAll : List Tree → List (List Tree)
  | [] => []
  | tree :: rest => tree.inner ++ innerAll rest

end

/-- A sequence of trees and all sequences below it. -/
def sequences (ts : List Tree) : List (List Tree) :=
  ts :: innerAll ts

theorem node_mem_preorder (t : Tree) : t.node ∈ t.preorder := by
  obtain ⟨node, children⟩ := t
  exact List.mem_cons_self

theorem self_mem_subtrees (t : Tree) : t ∈ t.subtrees := by
  obtain ⟨node, children⟩ := t
  exact List.mem_cons_self

theorem subtrees_subset {t : Tree} : ∀ {ts : List Tree}, t ∈ ts → t.subtrees ⊆ subtreesAll ts
  | u :: rest, h => by
    intro s hs
    rw [subtreesAll, List.mem_append]
    rcases List.mem_cons.mp h with rfl | h
    · exact .inl hs
    · exact .inr (subtrees_subset h hs)

theorem mem_subtreesAll {t : Tree} {ts : List Tree} (h : t ∈ ts) : t ∈ subtreesAll ts :=
  subtrees_subset h (self_mem_subtrees t)

theorem forall_subtreesAll_cons {P : Tree → Prop} {t : Tree} {rest : List Tree} :
    (∀ s ∈ subtreesAll (t :: rest), P s) ↔
      P t ∧ (∀ s ∈ subtreesAll t.children, P s) ∧ ∀ s ∈ subtreesAll rest, P s := by
  obtain ⟨node, children⟩ := t
  rw [subtreesAll, List.forall_mem_append, subtrees, List.forall_mem_cons, and_assoc]
  rfl

mutual

/-- The list of a tree has the top nodes of all trees in it. -/
theorem map_node_subtrees : ∀ t : Tree, t.subtrees.map node = t.preorder
  | mk node children => by
    rw [subtrees, preorder, List.map_cons, map_node_subtreesAll children]
    rfl

theorem map_node_subtreesAll : ∀ ts : List Tree, (subtreesAll ts).map node = preorderAll ts
  | [] => rfl
  | t :: rest => by
    rw [subtreesAll, preorderAll, List.map_append, map_node_subtrees t, map_node_subtreesAll rest]

end

theorem role_outline (t : Tree) : t.outline.role = t.node.role := by
  obtain ⟨⟨id, kind, parent, reference, operator, function, value, slot⟩, children⟩ := t
  cases kind <;> rfl

theorem outlines_eq_map : ∀ ts : List Tree, outlines ts = ts.map outline
  | [] => rfl
  | t :: rest => by rw [outlines, outlines_eq_map rest, List.map_cons]

theorem map_role_outlines (ts : List Tree) :
    (outlines ts).map Outline.role = (ts.map node).map Node.role := by
  rw [outlines_eq_map, List.map_map, List.map_map]
  exact List.map_congr_left fun t _ => role_outline t

/-! ### The sequences of a forest and its outline -/

mutual

theorem inner_outline : ∀ {t : Tree}, t.Regular → t.outline.inner = t.inner.map outlines
  | mk node children, h => by
    unfold Regular at h
    unfold outline inner
    split at h
    · next hkind => simp [hkind, h.2, Outline.inner, innerAll]
    · next hkind => simp [hkind, h.2, Outline.inner, innerAll]
    · next hkind => simp [hkind, h.2, Outline.inner, innerAll]
    · next hkind =>
      have ih := inner_argumentOutlines h.2
      simp [hkind, Outline.inner, ih]
    · next hkind =>
      have ih := inner_outlines h.2
      simp [hkind, Outline.inner, ih]

/-- The sequences inside the outline of trees are the outlines of the sequences below them. -/
theorem inner_outlines : ∀ {ts : List Tree}, RegularAll ts →
    Outline.sequenceInner (outlines ts) = (innerAll ts).map outlines
  | [], _ => rfl
  | t :: rest, h => by
    rw [outlines, Outline.sequenceInner, innerAll, List.map_append, inner_outline h.1,
      inner_outlines h.2]

theorem inner_argumentOutlines : ∀ {slot : Nat} {ts : List Tree}, RegularArguments slot ts →
    Outline.argumentInner (argumentOutlines ts) = (innerAll ts).map outlines
  | _, [], _ => rfl
  | slot, mk node children :: rest, h => by
    obtain ⟨hkind, -, hchildren, hrest⟩ := h
    rw [argumentOutlines, Outline.argumentInner, innerAll, inner, if_pos hkind, List.map_append,
      List.map_cons, inner_outlines hchildren, inner_argumentOutlines hrest]

end

/-- The sequences of the outline of a regular forest are the outlines of its sequences. -/
theorem sequences_outlines {ts : List Tree} (h : RegularAll ts) :
    Outline.sequences (outlines ts) = (sequences ts).map outlines := by
  rw [Outline.sequences, sequences, List.map_cons, inner_outlines h]

/-! ### Parents -/

mutual

/-- Every node of a linked tree has the parent of the top or one in the tree. -/
theorem parent_of_mem_preorder {parent : Option String} {n : Node} : ∀ {t : Tree},
    t.Linked parent → n ∈ t.preorder →
    n.parent = parent ∨ ∃ m ∈ t.preorder, n.parent = some m.id
  | mk node children, h, hn => by
    rcases List.mem_cons.mp hn with rfl | hn
    · exact .inl h.1
    · rcases parent_of_mem_preorderAll h.2 hn with hp | ⟨m, hm, hp⟩
      · exact .inr ⟨node, List.mem_cons_self, hp⟩
      · exact .inr ⟨m, List.mem_cons_of_mem _ hm, hp⟩

theorem parent_of_mem_preorderAll {parent : Option String} {n : Node} : ∀ {ts : List Tree},
    LinkedAll parent ts → n ∈ preorderAll ts →
    n.parent = parent ∨ ∃ m ∈ preorderAll ts, n.parent = some m.id
  | t :: rest, h, hn => by
    rw [preorderAll, List.mem_append] at hn
    rcases hn with hn | hn
    · refine (parent_of_mem_preorder h.1 hn).imp_right fun ⟨m, hm, hp⟩ => ⟨m, ?_, hp⟩
      exact List.mem_append_left _ hm
    · refine (parent_of_mem_preorderAll h.2 hn).imp_right fun ⟨m, hm, hp⟩ => ⟨m, ?_, hp⟩
      exact List.mem_append_right _ hm

end

/-- Whether a node names a parent, or is a root. -/
def hasParent (parent : Option String) (n : Node) : Bool :=
  n.parent = parent

/-- No node names a parent that is not above and not among the nodes. -/
theorem filter_hasParent_eq_nil {parent : Option String} (other : Option String) {ts : List Tree}
    (h : LinkedAll parent ts) (hne : parent ≠ other)
    (hids : ∀ n ∈ preorderAll ts, other ≠ some n.id) :
    (preorderAll ts).filter (hasParent other) = [] := by
  rw [List.filter_eq_nil_iff]
  intro n hn hother
  have hother : n.parent = other := by simpa [hasParent] using hother
  rcases parent_of_mem_preorderAll h hn with hp | ⟨m, hm, hp⟩
  · exact hne (hp.symm.trans hother)
  · exact hids m hm (hother.symm.trans hp)

/-- The nodes that name the parent of a forest are those at the top. -/
theorem filter_hasParent_top {parent : Option String} : ∀ {ts : List Tree},
    LinkedAll parent ts → (∀ n ∈ preorderAll ts, parent ≠ some n.id) →
    (preorderAll ts).filter (hasParent parent) = ts.map node
  | [], _, _ => rfl
  | mk n children :: rest, h, hids => by
    obtain ⟨⟨hparent, hchildren⟩, hrest⟩ := h
    simp only [preorderAll, preorder, List.cons_append, List.mem_cons, List.mem_append] at hids ⊢
    have hbelow := filter_hasParent_eq_nil parent hchildren (hids n (.inl rfl)).symm
      fun m hm => hids m (.inr (.inl hm))
    have ih := filter_hasParent_top hrest fun m hm => hids m (.inr (.inr hm))
    rw [List.filter_cons_of_pos (by simpa [hasParent] using hparent), List.filter_append, hbelow, ih]
    rfl

mutual

/-- In a linked tree the nodes that name a node of it are those right below. -/
theorem filter_hasParent_tree {parent : Option String} {s : Tree} : ∀ {t : Tree},
    t.Linked parent → (idsOf t.preorder).Nodup → parent ≠ some s.node.id → s ∈ t.subtrees →
    t.preorder.filter (hasParent (some s.node.id)) = s.children.map node
  | mk n children, h, hnodup, hparent, hs => by
    obtain ⟨hn, hchildren⟩ := h
    obtain ⟨hfresh, hnodup⟩ := List.nodup_cons.mp hnodup
    have hfresh : ∀ m ∈ preorderAll children, n.id ≠ m.id := fun m hm heq =>
      hfresh (List.mem_map.mpr ⟨m, hm, heq.symm⟩)
    have htop : ¬ hasParent (some s.node.id) n = true := by
      simpa [hasParent, hn] using hparent
    rw [preorder, List.filter_cons_of_neg htop]
    rcases List.mem_cons.mp hs with rfl | hs
    · exact filter_hasParent_top hchildren fun m hm heq => hfresh m hm (Option.some.inj heq)
    · refine filter_hasParent_forest hchildren hnodup (fun heq => ?_) hs
      have hmem := List.mem_map_of_mem (f := node) hs
      rw [map_node_subtreesAll] at hmem
      exact hfresh _ hmem (Option.some.inj heq)

theorem filter_hasParent_forest {parent : Option String} {s : Tree} : ∀ {ts : List Tree},
    LinkedAll parent ts → (idsOf (preorderAll ts)).Nodup → parent ≠ some s.node.id →
    s ∈ subtreesAll ts →
    (preorderAll ts).filter (hasParent (some s.node.id)) = s.children.map node
  | t :: rest, h, hnodup, hparent, hs => by
    rw [idsOf, preorderAll, List.map_append] at hnodup
    obtain ⟨htree, hforest, hdisjoint⟩ := List.nodup_append.mp hnodup
    rw [subtreesAll, List.mem_append] at hs
    rw [preorderAll, List.filter_append]
    rcases hs with hs | hs
    · have hmem : s.node ∈ t.preorder := map_node_subtrees t ▸ List.mem_map_of_mem hs
      have hothers := filter_hasParent_eq_nil (some s.node.id) h.2 hparent
        fun m hm heq => hdisjoint _ (List.mem_map_of_mem hmem) _ (List.mem_map_of_mem hm)
          (Option.some.inj heq)
      rw [filter_hasParent_tree h.1 htree hparent hs, hothers, List.append_nil]
    · have hmem : s.node ∈ preorderAll rest :=
        map_node_subtreesAll rest ▸ List.mem_map_of_mem hs
      have hfirst : LinkedAll parent [t] := ⟨h.1, trivial⟩
      have hothers := filter_hasParent_eq_nil (some s.node.id) hfirst hparent fun m hm heq => by
        simp only [preorderAll, List.append_nil] at hm
        exact hdisjoint _ (List.mem_map_of_mem hm) _ (List.mem_map_of_mem hmem)
          (Option.some.inj heq).symm
      simp only [preorderAll, List.append_nil] at hothers
      rw [hothers, List.nil_append, filter_hasParent_forest h.2 hforest hparent hs]

end

/-- The number of nodes below a node is less than that of its tree. -/
theorem length_preorder_pos (t : Tree) : 0 < t.preorder.length :=
  List.length_pos_of_mem (node_mem_preorder t)

end Tree

namespace Store

open Formulary.Tree

/-! ### The store of a forest -/

variable {ts : List Tree}

/-- **The children of a node in the list of a forest are the nodes right below it.** -/
theorem childrenOf_preorder (h : LinkedAll none ts) (hnodup : (idsOf (preorderAll ts)).Nodup)
    {s : Tree} (hs : s ∈ subtreesAll ts) :
    (Store.mk (preorderAll ts)).childrenOf s.node.id = s.children.map node :=
  filter_hasParent_forest h hnodup (fun heq => by cases heq) hs

theorem roots_preorder (h : LinkedAll none ts) :
    (Store.mk (preorderAll ts)).roots = ts.map node := by
  have hfilter := filter_hasParent_top h fun n _ heq => by cases heq
  rw [← hfilter, roots]
  exact List.filter_congr fun n _ => by cases hp : n.parent <;> simp [hasParent, hp]

/-- The arguments of a function are groups in the order of their slots. -/
theorem arguments_of_regular : ∀ {slot : Nat} {ts : List Tree}, RegularArguments slot ts →
    (∀ n ∈ ts.map node, n.isArgument = true ∧ (slot : Int) ≤ n.slot.getD 0) ∧
      (ts.map node).Pairwise fun a b => decide (a.slot.getD 0 ≤ b.slot.getD 0) = true
  | _, [], _ => ⟨fun n hn => (by cases hn), .nil⟩
  | slot, .mk n children :: rest, h => by
    obtain ⟨hkind, hslot, -, hrest⟩ := h
    obtain ⟨hall, hpairwise⟩ := arguments_of_regular hrest
    refine ⟨fun m hm => ?_, List.pairwise_cons.mpr ⟨fun m hm => ?_, hpairwise⟩⟩
    · rcases List.mem_cons.mp hm with rfl | hm
      · simp [Node.isArgument, hkind, hslot]
      · have hm := hall m hm
        exact ⟨hm.1, by omega⟩
    · have hm := (hall m hm).2
      simp only [Tree.node, hslot, Option.getD_some, decide_eq_true_eq]
      omega

mutual

/-- A regular tree is built again from its top, if the store has the children of its nodes. -/
theorem tree_of_regular {store : Store} : ∀ {t : Tree} {depth : Nat}, t.Regular →
    (∀ s ∈ t.subtrees, store.childrenOf s.node.id = s.children.map node) →
    t.preorder.length ≤ depth → store.tree depth t.node = t
  | t, 0, _, _, hdepth => by
    have hpos := length_preorder_pos t
    omega
  | .mk n children, depth + 1, h, hstore, hdepth => by
    have hown : store.childrenOf n.id = children.map node := hstore (.mk n children) List.mem_cons_self
    have hbelow : ∀ s ∈ subtreesAll children, store.childrenOf s.node.id = s.children.map node :=
      fun s hs => hstore s (List.mem_cons_of_mem _ hs)
    have hdepth : (preorderAll children).length ≤ depth := Nat.le_of_succ_le_succ hdepth
    rw [tree, Tree.node, below]
    unfold Regular at h
    split at h
    · next hkind => simp [hkind, h.2]
    · next hkind => simp [hkind, h.2]
    · next hkind => simp [hkind, h.2]
    · next hkind =>
      obtain ⟨hall, hpairwise⟩ := arguments_of_regular h.2
      have harguments : store.argumentsOf n.id = children.map node := by
        rw [argumentsOf, hown, List.filter_eq_self.mpr fun m hm => (hall m hm).1,
          sortBy_of_pairwise hpairwise]
      simp only [hkind, harguments, argumentTrees_of_regular h.2 hbelow hdepth]
    · next hkind => simp only [hkind, hown, trees_of_regular h.2 hbelow hdepth]

theorem trees_of_regular {store : Store} : ∀ {ts : List Tree} {depth : Nat}, RegularAll ts →
    (∀ s ∈ subtreesAll ts, store.childrenOf s.node.id = s.children.map node) →
    (preorderAll ts).length ≤ depth → (ts.map node).map (store.tree depth) = ts
  | [], _, _, _, _ => rfl
  | t :: rest, depth, h, hstore, hdepth => by
    rw [preorderAll, List.length_append] at hdepth
    have ht := tree_of_regular h.1 (fun s hs => hstore s (List.mem_append_left _ hs))
      (by omega : t.preorder.length ≤ depth)
    have ih := trees_of_regular h.2 (fun s hs => hstore s (List.mem_append_right _ hs))
      (by omega : (preorderAll rest).length ≤ depth)
    rw [List.map_cons, List.map_cons, ht, ih]

theorem argumentTrees_of_regular {store : Store} : ∀ {slot : Nat} {ts : List Tree} {depth : Nat},
    RegularArguments slot ts →
    (∀ s ∈ subtreesAll ts, store.childrenOf s.node.id = s.children.map node) →
    (preorderAll ts).length ≤ depth → (ts.map node).map (store.tree depth) = ts
  | _, [], _, _, _, _ => rfl
  | slot, .mk n children :: rest, depth, h, hstore, hdepth => by
    obtain ⟨hkind, -, hchildren, hrest⟩ := h
    simp only [preorderAll, preorder, List.length_append, List.length_cons] at hdepth
    obtain ⟨depth, rfl⟩ : ∃ d, depth = d + 1 := ⟨depth - 1, by omega⟩
    have hown : store.childrenOf n.id = children.map node :=
      hstore (.mk n children) (List.mem_append_left _ List.mem_cons_self)
    have hbody := trees_of_regular hchildren
      (fun s hs => hstore s (List.mem_append_left _ (List.mem_cons_of_mem _ hs)))
      (by omega : (preorderAll children).length ≤ depth)
    have ih := argumentTrees_of_regular hrest
      (fun s hs => hstore s (List.mem_append_right _ hs))
      (by omega : (preorderAll rest).length ≤ depth + 1)
    rw [List.map_cons, List.map_cons, ih, tree, Tree.node, below, hkind]
    simp only [hown, hbody]

end

/-- **A regular forest is that of its list.** -/
theorem forest_preorder (hregular : RegularAll ts) (h : LinkedAll none ts)
    (hnodup : (idsOf (preorderAll ts)).Nodup) : (Store.mk (preorderAll ts)).forest = ts := by
  rw [forest, roots_preorder h]
  exact trees_of_regular hregular (fun s hs => childrenOf_preorder h hnodup hs) (Nat.le_refl _)

mutual

/-- The children of the groups in a tree. -/
theorem groups_preorder {store : Store} : ∀ {t : Tree},
    (∀ s ∈ t.subtrees, store.childrenOf s.node.id = s.children.map node) →
    (t.preorder.filter (·.kind = .group)).map (fun n => store.childrenOf n.id) =
      t.inner.map (List.map node)
  | .mk n children, h => by
    have hown : store.childrenOf n.id = children.map node := h (.mk n children) List.mem_cons_self
    have ih := groups_preorderAll fun s hs => h s (List.mem_cons_of_mem _ hs)
    rw [preorder, Tree.inner]
    by_cases hkind : n.kind = .group
    · rw [List.filter_cons_of_pos (by simpa using hkind), if_pos hkind, List.map_cons, List.map_cons,
        hown, ih]
    · rw [List.filter_cons_of_neg (by simpa using hkind), if_neg hkind, ih]

theorem groups_preorderAll {store : Store} : ∀ {ts : List Tree},
    (∀ s ∈ subtreesAll ts, store.childrenOf s.node.id = s.children.map node) →
    ((preorderAll ts).filter (·.kind = .group)).map (fun n => store.childrenOf n.id) =
      (innerAll ts).map (List.map node)
  | [], _ => rfl
  | t :: rest, h => by
    rw [preorderAll, innerAll, List.filter_append, List.map_append, List.map_append,
      groups_preorder fun s hs => h s (List.mem_append_left _ hs),
      groups_preorderAll fun s hs => h s (List.mem_append_right _ hs)]

end

/-- **The sequences in the list of a forest are those of the forest.** -/
theorem sequences_preorder (h : LinkedAll none ts) (hnodup : (idsOf (preorderAll ts)).Nodup) :
    (Store.mk (preorderAll ts)).sequences = (Tree.sequences ts).map (List.map node) := by
  rw [Store.sequences, roots_preorder h, Tree.sequences, List.map_cons,
    groups_preorderAll fun s hs => childrenOf_preorder h hnodup hs]

end Store
end Formulary
