/-
# Arranged stores

A store is arranged if it is a forest whose nodes have the field of their kind and whose functions have one
argument group for each slot from zero on. Nothing is asked of what the fields hold. The links and the
slots alone give the forest its shape (`Intact.formed_forest`), and with the fields it is regular
(`Arranged.regular_forest`). The sequences of the forest are those of the store (`forall_roles_iff`).

Key definitions: `Node.Filled`, `Store.Arranged`.
Key theorems: `Store.Intact.formed_forest`, `Store.Arranged.regular_forest`,
`Store.Arranged.forall_roles_iff`.
-/
import Formulary.Proofs.Store.Intact

namespace Formulary

/-- Whether a node has the field of its kind. -/
def Node.Filled (node : Node) : Prop :=
  match node.kind with
  | .reference => node.reference.isSome = true
  | .operator => node.operator.isSome = true
  | .value => node.value.isSome = true
  | .function => node.function.isSome = true
  | .group => True

namespace Tree

mutual

theorem children_mem_inner {s : Tree} (hkind : s.node.kind = .group) : ∀ {t : Tree},
    s ∈ t.subtrees → s.children ∈ t.inner
  | mk n children, hs => by
    rw [inner]
    rcases List.mem_cons.mp hs with rfl | hs
    · rw [if_pos (show n.kind = .group from hkind)]
      exact List.mem_cons_self
    · have ih := children_mem_innerAll hkind hs
      split
      · exact List.mem_cons_of_mem _ ih
      · exact ih

/-- The children of a group below trees are a sequence below them. -/
theorem children_mem_innerAll {s : Tree} (hkind : s.node.kind = .group) : ∀ {ts : List Tree},
    s ∈ subtreesAll ts → s.children ∈ innerAll ts
  | t :: rest, hs => by
    rcases List.mem_append.mp hs with hs | hs
    · exact List.mem_append_left _ (children_mem_inner hkind hs)
    · exact List.mem_append_right _ (children_mem_innerAll hkind hs)

end

theorem formedAll_of_forall : ∀ {ts : List Tree}, (∀ t ∈ ts, t.Formed) → FormedAll ts
  | [], _ => trivial
  | t :: _, h => ⟨h t List.mem_cons_self,
      formedAll_of_forall fun u hu => h u (List.mem_cons_of_mem _ hu)⟩

mutual

theorem regular_of_formed : ∀ {t : Tree}, t.Formed → (∀ n ∈ t.preorder, n.Filled) → t.Regular
  | mk node children, h, hfilled => by
    have hown : node.Filled := hfilled node List.mem_cons_self
    have hbelow : ∀ n ∈ preorderAll children, n.Filled := fun n hn =>
      hfilled n (List.mem_cons_of_mem _ hn)
    unfold Formed at h
    unfold Node.Filled at hown
    unfold Regular
    split at h
    · next hkind => simpa only [hkind] using And.intro (by simpa only [hkind] using hown) h
    · next hkind => simpa only [hkind] using And.intro (by simpa only [hkind] using hown) h
    · next hkind => simpa only [hkind] using And.intro (by simpa only [hkind] using hown) h
    · next hkind =>
      simpa only [hkind] using
        And.intro (by simpa only [hkind] using hown) (regularArguments_of_formed h hbelow)
    · next hkind => simpa only [hkind] using And.intro h.1 (regularAll_of_formed h.2 hbelow)

/-- Trees with the shape of a sequence are regular if their nodes have the fields of their kinds. -/
theorem regularAll_of_formed : ∀ {ts : List Tree}, FormedAll ts →
    (∀ n ∈ preorderAll ts, n.Filled) → RegularAll ts
  | [], _, _ => trivial
  | _ :: _, h, hfilled =>
    ⟨regular_of_formed h.1 fun n hn => hfilled n (List.mem_append_left _ hn),
      regularAll_of_formed h.2 fun n hn => hfilled n (List.mem_append_right _ hn)⟩

theorem regularArguments_of_formed : ∀ {slot : Nat} {ts : List Tree}, FormedArguments slot ts →
    (∀ n ∈ preorderAll ts, n.Filled) → RegularArguments slot ts
  | _, [], _, _ => trivial
  | _, mk _ _ :: _, h, hfilled =>
    ⟨h.1, h.2.1,
      regularAll_of_formed h.2.2.1 fun n hn =>
        hfilled n (List.mem_append_left _ (List.mem_cons_of_mem _ hn)),
      regularArguments_of_formed h.2.2.2 fun n hn => hfilled n (List.mem_append_right _ hn)⟩

end

end Tree

namespace Store

open Formulary.Tree

variable {store : Store}

/-- Every node is at the top of a tree of the forest. -/
theorem IsForest.exists_subtree (h : store.IsForest) {node : Node} (hnode : node ∈ store.nodes) :
    ∃ t ∈ subtreesAll store.forest, t.node = node := by
  rw [← h.preorder_perm.mem_iff, preorder, ← map_node_subtreesAll] at hnode
  exact List.mem_map.mp hnode

/-- Slots that are those from zero on are these in their order. -/
theorem eq_range_of_perm {slots : List (Option Int)} {n : Nat}
    (hperm : slots.Perm ((List.range n).map fun slot : Nat => some (slot : Int)))
    (hsorted : slots.Pairwise fun a b => a.getD 0 ≤ b.getD 0) :
    slots = (List.range n).map fun slot : Nat => some (slot : Int) := by
  have hrange : ((List.range n).map fun slot : Nat => some (slot : Int)).Pairwise
      fun a b => a.getD 0 ≤ b.getD 0 := by
    rw [List.pairwise_map]
    exact List.pairwise_lt_range.imp fun hlt => by
      simp only [Option.getD_some]
      omega
  refine List.Perm.eq_of_pairwise (fun a b ha hb hab hba => ?_) hsorted hrange hperm
  obtain ⟨i, -, rfl⟩ := List.mem_map.mp (hperm.mem_iff.mp ha)
  obtain ⟨j, -, rfl⟩ := List.mem_map.mp hb
  simp only [Option.getD_some] at hab hba
  rw [Int.le_antisymm hab hba]

theorem formedArguments_of_slots {depth : Nat} : ∀ {slot : Nat} {groups : List Node},
    groups.map (·.slot) = (List.range' slot groups.length).map (fun slot : Nat => some (slot : Int)) →
    (∀ g ∈ groups, g.kind = .group ∧ FormedAll (store.tree depth g).children) →
    FormedArguments slot (groups.map (store.tree depth))
  | _, [], _, _ => trivial
  | slot, g :: rest, hslots, hgroups => by
    rw [List.map_cons, List.length_cons, List.range'_succ, List.map_cons] at hslots
    obtain ⟨hslot, hrest⟩ := List.cons.inj hslots
    obtain ⟨hkind, hchildren⟩ := hgroups g List.mem_cons_self
    have htree : store.tree depth g = .mk g (store.tree depth g).children := by
      cases depth <;> rfl
    rw [List.map_cons, htree]
    exact ⟨hkind, hslot, hchildren, formedArguments_of_slots hrest
      fun u hu => hgroups u (List.mem_cons_of_mem _ hu)⟩

/-- Whether the arguments of every function have the slots from zero on, one each. -/
def Slotted (store : Store) : Prop :=
  ∀ node ∈ store.nodes, node.kind = .function →
    ((store.childrenOf node.id).map (·.slot)).Perm
      ((List.range (store.childrenOf node.id).length).map fun slot : Nat => some (slot : Int))

namespace Intact

/-- The arguments of a function are in the slots from zero on, in this order. -/
theorem map_slot_argumentsOf (h : store.Intact) (hslots : store.Slotted) {node : Node}
    (hnode : node ∈ store.nodes) (hkind : node.kind = .function) :
    (store.argumentsOf node.id).map (·.slot) =
      (List.range (store.argumentsOf node.id).length).map fun slot : Nat => some (slot : Int) := by
  have hperm := h.perm_argumentsOf hnode hkind
  have hchildren := (hperm.map (·.slot)).trans (hslots node hnode hkind)
  rw [← hperm.length_eq] at hchildren
  refine eq_range_of_perm hchildren ?_
  rw [List.pairwise_map]
  exact pairwise_argumentsOf node.id

/-- Deep trees of an intact store with all slots have the shape of terms, and so has what is below its
groups. -/
theorem formed_tree (h : store.Intact) (hslots : store.Slotted) {depth : Nat} {node : Node}
    (hnode : node ∈ store.nodes) (hrank : store.rank node < depth) :
    (node.isArgument = false → (store.tree depth node).Formed) ∧
      (node.kind = .group → FormedAll (store.tree depth node).children) := by
  induction depth generalizing node with
  | zero => omega
  | succ depth ih =>
    have hbelow : ∀ child ∈ store.childrenOf node.id, child ∈ store.nodes ∧
        store.rank child < depth := by
      intro child hchild
      have hlt := rank_lt_of_mem_childrenOf h.acyclic hchild
      exact ⟨(mem_childrenOf.mp hchild).1, by omega⟩
    have hgroup : node.kind = .group →
        FormedAll ((store.childrenOf node.id).map (store.tree depth)) := by
      intro hkind
      refine formedAll_of_forall fun t ht => ?_
      obtain ⟨child, hchild, rfl⟩ := List.mem_map.mp ht
      obtain ⟨hmem, hlt⟩ := hbelow child hchild
      exact (ih hmem hlt).1 (h.isArgument_of_mem_childrenOf hnode hkind hchild)
    have hfunction : node.kind = .function →
        FormedArguments 0 ((store.argumentsOf node.id).map (store.tree depth)) := by
      intro hkind
      have hrange := h.map_slot_argumentsOf hslots hnode hkind
      rw [List.range_eq_range'] at hrange
      refine formedArguments_of_slots hrange fun g hg => ?_
      obtain ⟨hchild, hargument⟩ := mem_argumentsOf.mp hg
      obtain ⟨hmem, hlt⟩ := hbelow g hchild
      have hgkind : g.kind = .group := (Node.isArgument_iff.mp hargument).1
      exact ⟨hgkind, (ih hmem hlt).2 hgkind⟩
    rw [tree, below]
    constructor
    · intro hargument
      unfold Tree.Formed
      cases hkind : node.kind with
      | reference => exact List.map_nil
      | operator => exact List.map_nil
      | value => exact List.map_nil
      | function => exact hfunction hkind
      | group => exact ⟨by simpa [Node.isArgument, hkind] using hargument, hgroup hkind⟩
    · intro hkind
      rw [hkind]
      exact hgroup hkind

/-- **The forest of an intact store with all slots has the shape of a formula**, whatever its nodes
hold. -/
theorem formed_forest (h : store.Intact) (hslots : store.Slotted) : FormedAll store.forest := by
  refine formedAll_of_forall fun t ht => ?_
  obtain ⟨root, hroot, rfl⟩ := List.mem_map.mp ht
  have hnode := mem_nodes_of_mem_roots hroot
  exact (h.formed_tree hslots hnode (rank_lt_size h.acyclic hnode)).1
    (h.isArgument_of_mem_roots hroot)

end Intact

/-- Whether every node of a store has the field of its kind, and every function its arguments in the
slots from zero on. -/
structure Arranged (store : Store) : Prop extends Intact store where
  reference : ∀ node ∈ store.nodes, node.kind = .reference → node.reference.isSome = true
  operator : ∀ node ∈ store.nodes, node.kind = .operator → node.operator.isSome = true
  value : ∀ node ∈ store.nodes, node.kind = .value → node.value.isSome = true
  function : ∀ node ∈ store.nodes, node.kind = .function → node.function.isSome = true
  slots : ∀ node ∈ store.nodes, node.kind = .function →
    ((store.childrenOf node.id).map (·.slot)).Perm
      ((List.range (store.childrenOf node.id).length).map fun slot : Nat => some (slot : Int))

namespace Arranged

/-- What a node holds can be expressed if the outline of its tree can. -/
theorem sound_node (h : store.Arranged) {catalog : Catalog} {t : Tree} (hnode : t.node ∈ store.nodes)
    (hsound : t.outline.Sound catalog) : t.node.Sound catalog := by
  obtain ⟨node, children⟩ := t
  have hnode : node ∈ store.nodes := hnode
  show node.Sound catalog
  unfold outline at hsound
  unfold Node.Sound
  cases hkind : node.kind with
  | reference =>
    obtain ⟨id, hid⟩ := Option.isSome_iff_exists.mp (h.reference node hnode hkind)
    simp only [hkind, hid] at hsound
    exact ⟨id, hid, hsound⟩
  | operator =>
    obtain ⟨symbol, hsymbol⟩ := Option.isSome_iff_exists.mp (h.operator node hnode hkind)
    simp only [hkind, hsymbol] at hsound
    exact ⟨symbol, hsymbol, hsound⟩
  | value =>
    obtain ⟨n, hn⟩ := Option.isSome_iff_exists.mp (h.value node hnode hkind)
    simp only [hkind, hn] at hsound
    exact ⟨n, hn, hsound⟩
  | function =>
    obtain ⟨name, hname⟩ := Option.isSome_iff_exists.mp (h.function node hnode hkind)
    simp only [hkind, hname] at hsound
    exact ⟨name, hname, hsound⟩
  | group => trivial

/-! ### The forest is regular -/

theorem filled (h : store.Arranged) {node : Node} (hnode : node ∈ store.nodes) : node.Filled := by
  unfold Node.Filled
  cases hkind : node.kind with
  | reference => exact h.reference node hnode hkind
  | operator => exact h.operator node hnode hkind
  | value => exact h.value node hnode hkind
  | function => exact h.function node hnode hkind
  | group => trivial

/-- **The forest of an arranged store is regular.** -/
theorem regular_forest (h : store.Arranged) : RegularAll store.forest :=
  regularAll_of_formed (h.toIntact.formed_forest h.slots) fun _ hn =>
    h.filled (mem_nodes_of_mem_preorder h.acyclic hn)

/-! ### The sequences -/

/-- The sequences of the forest are sequences of the store. -/
theorem map_node_mem_sequences (h : store.Arranged) {q : List Tree}
    (hq : q ∈ Tree.sequences store.forest) :
    q.map Tree.node ∈ store.sequences ∧ ∀ t ∈ q, t ∈ subtreesAll store.forest := by
  rcases List.mem_cons.mp hq with rfl | hq
  · refine ⟨?_, fun t ht => mem_subtreesAll ht⟩
    rw [forest, map_node_tree]
    exact List.mem_cons_self
  · obtain ⟨s, hs, hkind, rfl⟩ := mem_innerAll hq
    obtain ⟨hnode, hbelow⟩ := subtrees_forest h.acyclic hs
    refine ⟨?_, fun t ht => ?_⟩
    · rw [hbelow, below, hkind]
      refine List.mem_cons_of_mem _ (List.mem_map.mpr ⟨s.node, ?_, rfl⟩)
      exact List.mem_filter.mpr ⟨hnode, by simpa using hkind⟩
    · obtain ⟨node, children⟩ := s
      exact subtrees_subset_of_mem hs (List.mem_cons_of_mem _ (mem_subtreesAll ht))

/-- The sequences of the store are sequences of the forest. -/
theorem exists_sequence (h : store.Arranged) {q : List Node} (hq : q ∈ store.sequences) :
    ∃ ts ∈ Tree.sequences store.forest, ts.map Tree.node = q := by
  rcases List.mem_cons.mp hq with rfl | hq
  · exact ⟨store.forest, List.mem_cons_self, map_node_tree _ _⟩
  · obtain ⟨node, hnode, rfl⟩ := List.mem_map.mp hq
    obtain ⟨hmem, hkind⟩ := List.mem_filter.mp hnode
    obtain ⟨t, ht, rfl⟩ := h.isForest.exists_subtree hmem
    have hkind : t.node.kind = .group := of_decide_eq_true hkind
    refine ⟨t.children, List.mem_cons_of_mem _ (children_mem_innerAll hkind ht), ?_⟩
    rw [(subtrees_forest h.acyclic ht).2, below, hkind]

/-- What holds of all sequences of the store and all trees of the forest holds of the sequences of its
outline. -/
theorem forall_sequences (h : store.Arranged) {q : List Outline}
    (hq : q ∈ Outline.sequences (outlines store.forest)) :
    (∃ nodes ∈ store.sequences, q.map Outline.role = nodes.map Node.role) ∧
      ∀ o ∈ q, ∃ t ∈ subtreesAll store.forest, t.outline = o := by
  rw [sequences_outlines h.regular_forest] at hq
  obtain ⟨ts, hts, rfl⟩ := List.mem_map.mp hq
  obtain ⟨hmem, hsubtrees⟩ := h.map_node_mem_sequences hts
  refine ⟨⟨_, hmem, map_role_outlines ts⟩, fun o ho => ?_⟩
  rw [outlines_eq_map] at ho
  obtain ⟨t, ht, rfl⟩ := List.mem_map.mp ho
  exact ⟨t, hsubtrees t ht, rfl⟩

/-- **Neighbours in the sequences of the store are neighbours in those of its outline.** -/
theorem forall_roles_iff (h : store.Arranged) {P : List Role → Prop} :
    (∀ q ∈ store.sequences, P (q.map Node.role)) ↔
      ∀ q ∈ Outline.sequences (outlines store.forest), P (q.map Outline.role) := by
  constructor
  · intro hall q hq
    obtain ⟨⟨nodes, hnodes, hroles⟩, -⟩ := h.forall_sequences hq
    rw [hroles]
    exact hall nodes hnodes
  · intro hall q hq
    obtain ⟨ts, hts, rfl⟩ := h.exists_sequence hq
    rw [← map_role_outlines]
    refine hall _ ?_
    rw [sequences_outlines h.regular_forest]
    exact List.mem_map_of_mem hts

/-- Every node that is no argument stands in a sequence. -/
theorem mem_sequence (h : store.Arranged) {node : Node} (hnode : node ∈ store.nodes)
    (hargument : node.isArgument = false) : ∃ q ∈ store.sequences, node ∈ q := by
  cases hparent : node.parent with
  | none =>
    exact ⟨store.roots, List.mem_cons_self, List.mem_filter.mpr ⟨hnode, by rw [hparent]; rfl⟩⟩
  | some parent =>
    obtain ⟨owner, howner, rfl⟩ := h.parents node hnode parent hparent
    have hchild : node ∈ store.childrenOf owner.id := mem_childrenOf.mpr ⟨hnode, hparent⟩
    have hkind : owner.kind = .group := by
      cases hkind : owner.kind with
      | group => rfl
      | function =>
        rw [h.arguments owner howner hkind node hchild] at hargument
        cases hargument
      | _ =>
        rw [h.leaf owner howner (by rw [hkind]; rfl)] at hchild
        cases hchild
    refine ⟨_, List.mem_cons_of_mem _ (List.mem_map.mpr ⟨owner, ?_, rfl⟩), hchild⟩
    exact List.mem_filter.mpr ⟨howner, by simpa using hkind⟩

/-- Every node that is no argument has its outline in a sequence of the outline of the store. -/
theorem exists_outline (h : store.Arranged) {node : Node} (hnode : node ∈ store.nodes)
    (hargument : node.isArgument = false) :
    ∃ q ∈ Outline.sequences (outlines store.forest), ∃ t : Tree, t.node = node ∧ t.outline ∈ q := by
  obtain ⟨q, hq, hmem⟩ := h.mem_sequence hnode hargument
  obtain ⟨ts, hts, rfl⟩ := h.exists_sequence hq
  obtain ⟨t, ht, rfl⟩ := List.mem_map.mp hmem
  refine ⟨outlines ts, ?_, t, rfl, ?_⟩
  · rw [sequences_outlines h.regular_forest]
    exact List.mem_map_of_mem hts
  · rw [outlines_eq_map]
    exact List.mem_map_of_mem ht

end Arranged
end Store
end Formulary
