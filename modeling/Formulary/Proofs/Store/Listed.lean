/-
# Stores that are listed in reading order

A store is listed if its nodes are linked as those of a formula are, in reading order, and the arguments
of each function are numbered from zero on in that order. The list of a regular forest is so
(`listed_preorder`), and so is the store of terms (`listed_ofTerms`).

Key definition: `Store.Listed`.
Key theorems: `Store.listed_preorder`, `Store.Listed.arranged`.
-/
import Formulary.Proofs.Store.Arranged
import Formulary.Proofs.Store.Lineage
import Formulary.Proofs.Structure.Slots
import Formulary.Proofs.Tree.Terms

namespace Formulary
namespace Tree

/-! ### The trees of a regular forest -/

/-- Whether a tree is an argument of a function among trees. -/
def IsArgumentIn (t : Tree) (ts : List Tree) : Prop :=
  t.node.isArgument = true ∧ RegularAll t.children ∧
    ∃ owner ∈ ts, owner.node.kind = .function ∧ t ∈ owner.children

theorem IsArgumentIn.mono {t : Tree} {ts us : List Tree} (h : t.IsArgumentIn ts) (hsub : ts ⊆ us) :
    t.IsArgumentIn us := by
  obtain ⟨hargument, hregular, owner, howner, hrest⟩ := h
  exact ⟨hargument, hregular, owner, hsub howner, hrest⟩

mutual

theorem regular_of_mem_subtrees {s : Tree} : ∀ {t : Tree}, t.Regular → s ∈ t.subtrees →
    s.Regular ∨ s.IsArgumentIn t.subtrees
  | mk n children, h, hs => by
    rcases List.mem_cons.mp hs with rfl | hs
    · exact .inl h
    have hsub : subtreesAll children ⊆ (mk n children).subtrees := List.subset_cons_self _ _
    unfold Regular at h
    split at h
    · rw [h.2] at hs
      cases hs
    · rw [h.2] at hs
      cases hs
    · rw [h.2] at hs
      cases hs
    · next hkind =>
      rcases regular_of_mem_arguments h.2 hs with hregular | hargument | hbelow
      · exact .inl hregular
      · exact .inr ⟨hargument.1, hargument.2.1, mk n children, List.mem_cons_self, hkind, hargument.2.2⟩
      · exact .inr (hbelow.mono hsub)
    · exact (regular_of_mem_subtreesAll h.2 hs).imp_right fun hbelow => hbelow.mono hsub

/-- A tree of a regular forest is regular or an argument of a function. -/
theorem regular_of_mem_subtreesAll {s : Tree} : ∀ {ts : List Tree}, RegularAll ts →
    s ∈ subtreesAll ts → s.Regular ∨ s.IsArgumentIn (subtreesAll ts)
  | t :: rest, h, hs => by
    rcases List.mem_append.mp hs with hs | hs
    · exact (regular_of_mem_subtrees h.1 hs).imp_right
        fun hbelow => hbelow.mono (List.subset_append_left _ _)
    · exact (regular_of_mem_subtreesAll h.2 hs).imp_right
        fun hbelow => hbelow.mono (List.subset_append_right _ _)

theorem regular_of_mem_arguments {s : Tree} : ∀ {slot : Nat} {ts : List Tree},
    RegularArguments slot ts → s ∈ subtreesAll ts →
    s.Regular ∨ (s.node.isArgument = true ∧ RegularAll s.children ∧ s ∈ ts) ∨
      s.IsArgumentIn (subtreesAll ts)
  | slot, mk n children :: rest, h, hs => by
    obtain ⟨hkind, hslot, hchildren, hrest⟩ := h
    have hsub : subtreesAll children ⊆ subtreesAll (mk n children :: rest) :=
      fun t ht => List.mem_append_left _ (List.mem_cons_of_mem _ ht)
    rcases List.mem_append.mp hs with hs | hs
    · rcases List.mem_cons.mp hs with rfl | hs
      · exact .inr (.inl ⟨Node.isArgument_iff.mpr ⟨hkind, _, hslot⟩, hchildren, List.mem_cons_self⟩)
      · exact (regular_of_mem_subtreesAll hchildren hs).imp_right fun hbelow => .inr (hbelow.mono hsub)
    · rcases regular_of_mem_arguments hrest hs with hregular | hargument | hbelow
      · exact .inl hregular
      · exact .inr (.inl ⟨hargument.1, hargument.2.1, List.mem_cons_of_mem _ hargument.2.2⟩)
      · exact .inr (.inr (hbelow.mono (List.subset_append_right _ _)))

end

theorem Regular.children_of_leaf {t : Tree} (h : t.Regular) (hleaf : t.node.kind.isLeaf = true) :
    t.children = [] := by
  obtain ⟨node, children⟩ := t
  have hleaf : node.kind.isLeaf = true := hleaf
  unfold Regular at h
  split at h
  · exact h.2
  · exact h.2
  · exact h.2
  · next hkind =>
    rw [hkind] at hleaf
    cases hleaf
  · next hkind =>
    rw [hkind] at hleaf
    cases hleaf

/-- The top of a regular tree has the field of its kind. -/
theorem Regular.field {t : Tree} (h : t.Regular) : match t.node.kind with
    | .reference => t.node.reference.isSome = true
    | .operator => t.node.operator.isSome = true
    | .value => t.node.value.isSome = true
    | .function => t.node.function.isSome = true
    | .group => True := by
  obtain ⟨node, children⟩ := t
  unfold Regular at h
  rw [Tree.node]
  cases hkind : node.kind with
  | group => trivial
  | _ =>
    rw [hkind] at h
    exact h.1

theorem Regular.arguments {t : Tree} (h : t.Regular) (hkind : t.node.kind = .function) :
    RegularArguments 0 t.children := by
  obtain ⟨node, children⟩ := t
  have hkind : node.kind = .function := hkind
  unfold Regular at h
  rw [hkind] at h
  exact h.2

/-- Arguments have their slots in order. -/
theorem slots_of_regularArguments {slot : Nat} {ts : List Tree} (h : RegularArguments slot ts) :
    (ts.map node).map (·.slot) = (List.range' slot ts.length).map fun n => some (Int.ofNat n) := by
  induction ts generalizing slot with
  | nil => rfl
  | cons t rest ih =>
    obtain ⟨n, children⟩ := t
    obtain ⟨-, hslot, -, hrest⟩ := h
    rw [List.map_cons, List.map_cons, ih hrest, List.length_cons, List.range'_succ, List.map_cons]
    exact congrArg (· :: _) hslot

end Tree

namespace Store

open Formulary.Tree

/-- Whether the nodes of a store are linked and listed as those of a formula that was read. -/
structure Listed (store : Store) : Prop extends Intact store where
  /-- A node stands behind its parent. -/
  parent_before : ∀ before node rest, store.nodes = before ++ node :: rest →
    ∀ parent, node.parent = some parent → ∃ owner ∈ before, owner.id = parent
  /-- The list is the one that the trees of the roots have. -/
  preorder : store.preorder = store.nodes
  /-- The arguments of a function are numbered in the order of the list. -/
  slots : ∀ node ∈ store.nodes, node.kind = .function →
    ∃ count, (store.childrenOf node.id).map (·.slot) = (firstSlots count).map some

/-- **The list of a regular forest is listed.** -/
theorem listed_preorder {ts : List Tree} (hregular : RegularAll ts) (h : LinkedAll none ts)
    (hunique : (idsOf (preorderAll ts)).Nodup) : (Store.mk (preorderAll ts)).Listed := by
  have hchildren (s : Tree) (hs : s ∈ subtreesAll ts) :
      (Store.mk (preorderAll ts)).childrenOf s.node.id = s.children.map Tree.node :=
    childrenOf_preorder h hunique hs
  have htree : ∀ node ∈ preorderAll ts, ∃ s ∈ subtreesAll ts, s.node = node := by
    intro node hnode
    rw [← map_node_subtreesAll] at hnode
    exact List.mem_map.mp hnode
  have hmem : ∀ s ∈ subtreesAll ts, s.node ∈ preorderAll ts := fun s hs =>
    map_node_subtreesAll ts ▸ List.mem_map_of_mem hs
  -- Arguments are groups, so that the trees of all other nodes are regular.
  have hregular_of : ∀ s ∈ subtreesAll ts, s.node.kind ≠ .group → s.Regular := by
    intro s hs hkind
    refine (regular_of_mem_subtreesAll hregular hs).resolve_right fun hargument => ?_
    exact hkind (Node.isArgument_iff.mp hargument.1).1
  have hfunction : ∀ s ∈ subtreesAll ts, s.node.kind = .function → RegularArguments 0 s.children :=
    fun s hs hkind => (hregular_of s hs (by simp [hkind])).arguments hkind
  refine {
    unique := hunique
    parents := fun node hnode parent hparent => ?parents
    acyclic := acyclic_preorder h hunique
    leaf := fun node hnode hleaf => ?leaf
    arguments := fun node hnode hkind child hchild => ?arguments
    argument := fun node hnode hargument => ?argument
    parent_before := fun before node rest hsplit parent hparent => Store.parent_before h hsplit hparent
    preorder := congrArg preorderAll (forest_preorder hregular h hunique)
    slots := fun node hnode hkind => ?slots }
  case parents =>
    obtain ⟨before, rest, hsplit⟩ := List.append_of_mem hnode
    obtain ⟨owner, howner, hid⟩ := Store.parent_before h hsplit hparent
    refine ⟨owner, ?_, hid⟩
    rw [hsplit]
    exact List.mem_append_left _ howner
  case leaf =>
    obtain ⟨s, hs, rfl⟩ := htree node hnode
    have hkind : s.node.kind ≠ .group := fun hgroup => by
      rw [hgroup] at hleaf
      cases hleaf
    rw [hchildren s hs, (hregular_of s hs hkind).children_of_leaf hleaf]
    rfl
  case arguments =>
    obtain ⟨s, hs, rfl⟩ := htree node hnode
    rw [hchildren s hs] at hchild
    exact ((arguments_of_regular (hfunction s hs hkind)).1 child hchild).1
  case argument =>
    obtain ⟨s, hs, rfl⟩ := htree node hnode
    rcases regular_of_mem_subtreesAll hregular hs with hs | ⟨-, -, owner, howner, hkind, hchild⟩
    · rw [isArgument_of_formed (formed_of_regular hs)] at hargument
      cases hargument
    · refine ⟨owner.node, hmem owner howner, ?_, hkind⟩
      have hbelow : s.node ∈ (Store.mk (preorderAll ts)).childrenOf owner.node.id := by
        rw [hchildren owner howner]
        exact List.mem_map_of_mem hchild
      exact (mem_childrenOf.mp hbelow).2
  case slots =>
    obtain ⟨s, hs, rfl⟩ := htree node hnode
    refine ⟨s.children.length, ?_⟩
    rw [hchildren s hs, slots_of_regularArguments (hfunction s hs hkind), firstSlots, List.map_map,
      List.range_eq_range']
    rfl

/-- The store of terms is listed. -/
theorem listed_ofTerms (k : Nat) (terms : List Term) : (ofTerms k terms).Listed := by
  rw [ofTerms_eq]
  exact listed_preorder (Term.regular_sequenceTrees none k terms)
    (Term.linked_sequenceTrees none k terms) (nodup_preorder_sequenceTrees k terms)

/-- The arguments of a function have different slots. -/
theorem Listed.nodup_slots {store : Store} (h : store.Listed) {node : Node}
    (hnode : node ∈ store.nodes) (hkind : node.kind = .function) :
    ((store.argumentsOf node.id).map (·.slot)).Nodup := by
  obtain ⟨count, hslots⟩ := h.slots node hnode hkind
  rw [((h.perm_argumentsOf hnode hkind).map _).nodup_iff, hslots]
  exact (nodup_firstSlots count).map (Option.some_injective _)

/-- **A listed store with a regular forest is arranged.** -/
theorem Listed.arranged {store : Store} (h : store.Listed) (hregular : RegularAll store.forest) :
    store.Arranged := by
  have hfield : ∀ node ∈ store.nodes, match node.kind with
      | .reference => node.reference.isSome = true
      | .operator => node.operator.isSome = true
      | .value => node.value.isSome = true
      | .function => node.function.isSome = true
      | .group => True := by
    intro node hnode
    obtain ⟨t, ht, rfl⟩ := h.isForest.exists_subtree hnode
    rcases regular_of_mem_subtreesAll hregular ht with hself | ⟨hargument, -⟩
    · exact hself.field
    · rw [(Node.isArgument_iff.mp hargument).1]
      trivial
  exact {
    toIntact := h.toIntact
    reference := fun node hnode hkind => by simpa only [hkind] using hfield node hnode
    operator := fun node hnode hkind => by simpa only [hkind] using hfield node hnode
    value := fun node hnode hkind => by simpa only [hkind] using hfield node hnode
    function := fun node hnode hkind => by simpa only [hkind] using hfield node hnode
    slots := fun node hnode hkind => by
      obtain ⟨count, hslots⟩ := h.slots node hnode hkind
      have hlength := congrArg List.length hslots
      rw [List.length_map, List.length_map, length_firstSlots] at hlength
      rw [hslots, hlength, firstSlots, List.map_map]
      exact List.Perm.refl _ }

end Store
end Formulary
