/-
# Switching functions

In a well-formed store a reference, a value or a call can be made a call of any function, and the store
stays well formed (`Store.WellFormed.of_spares`). What is taken out with the former arguments is closed
downwards and has no root, so that the nodes that stay have their parents, and all of them but the node
have their children (`Store.Spares`). A function with a fixed number of arguments gets a new group for each
of its slots. A function of any number of arguments keeps those that there are, which were in the slots
from zero on, whatever the node was a call of before. So switching functions keeps a valid store valid
(`Store.isValid_setFunction`).

Key definitions: `Store.Spares`, `Store.switched`.
Key theorems: `Store.Rebuilds.spares`, `Store.WellFormed.of_spares`, `Store.isValid_setFunction`.
-/
import Formulary.Proofs.Store.Rebuilt
import Formulary.Proofs.Structure.Valid

namespace Formulary
namespace Store

open Relation (TransGen)

/-- Whether nodes that are left of a store have their parents, and all of them but `node` have their
children; no root is missing. -/
structure Spares (store : Store) (node : Node) (kept : List Node) : Prop where
  sublist : kept.Sublist store.nodes
  self : node ∈ kept
  root : ∀ n ∈ store.nodes, n.parent = none → n ∈ kept
  owner : ∀ n ∈ kept, ∀ owner ∈ store.nodes, n.parent = some owner.id → owner ∈ kept
  child : ∀ n ∈ kept, n.id ≠ node.id → ∀ c ∈ store.childrenOf n.id, c ∈ kept

/-- The nodes that are left with `node` as a call, and with new groups for its arguments. -/
def switched (node : Node) (name : Option String) (fresh : Nat → String) (count : Nat)
    (kept : List Node) : Store :=
  ⟨(kept.map fun n => (Edit.setFunction node.id name).revise n) ++ emptyArguments node.id fresh count⟩

variable {store : Store} {catalog : Option Catalog} {node n : Node} {kept : List Node}
  {name : Option String} {fresh : Nat → String} {count : Nat}

/-! ### What is left -/

theorem Spares.mem (h : store.Spares node kept) : node ∈ store.nodes :=
  h.sublist.subset h.self

theorem Spares.refl (hnode : node ∈ store.nodes) : store.Spares node store.nodes where
  sublist := List.Sublist.refl _
  self := hnode
  root _ hn _ := hn
  owner _ _ _ howner _ := howner
  child _ _ _ _ hc := (mem_childrenOf.mp hc).1

/-- A node is below another if its parent is the other node or is below it. -/
theorem under_iff (hunique : (idsOf store.nodes).Nodup) (hn : n ∈ store.nodes) {above : Node} :
    store.Under n above ↔ ∃ id, n.parent = some id ∧
      (id = above.id ∨ TransGen store.ParentOf id above.id) := by
  have hstep : ∀ {id}, store.ParentOf n.id id ↔ n.parent = some id := by
    intro id
    rw [parentOf_iff_leads hunique, Leads, get?_of_unique hunique hn]
    rfl
  rw [Under, Relation.TransGen.head'_iff]
  refine exists_congr fun id => and_congr hstep ?_
  rw [Relation.reflTransGen_iff_eq_or_transGen, eq_comm]

/-- What rebuilding the arguments of a node leaves. -/
theorem Rebuilds.spares {groups : List Node} {after : Store} (hunique : (idsOf store.nodes).Nodup)
    (h : store.Rebuilds node name groups after) : ∃ kept, store.Spares node kept ∧
      (∀ group ∈ store.argumentsOf node.id, group ∉ kept) ∧
      after.nodes = (kept.map fun n => (Edit.setFunction node.id name).revise n) ++ groups := by
  obtain ⟨kept, hsub, hself, hkept, hnodes⟩ := h.nodes
  have hgroups : ∀ group ∈ store.argumentsOf node.id, group ∈ store.nodes ∧
      group.parent = some node.id := fun group hgroup => mem_childrenOf.mp (mem_argumentsOf.mp hgroup).1
  refine ⟨kept, ⟨hsub, hself, ?_, ?_, ?_⟩, fun group hgroup hmem => ?_, hnodes⟩
  · intro n hn hroot
    refine (hkept n).mpr ⟨hn, ?_⟩
    rintro ⟨group, hgroup, rfl | hunder⟩
    · rw [(hgroups _ hgroup).2] at hroot
      cases hroot
    · obtain ⟨id, hparent, -⟩ := (under_iff hunique hn).mp hunder
      rw [hparent] at hroot
      cases hroot
  · intro n hn owner howner hparent
    obtain ⟨hmem, hspared⟩ := (hkept n).mp hn
    refine (hkept owner).mpr ⟨howner, ?_⟩
    rintro ⟨group, hgroup, rfl | hunder⟩
    · exact hspared ⟨owner, hgroup, .inr ((under_iff hunique hmem).mpr ⟨_, hparent, .inl rfl⟩)⟩
    · exact hspared ⟨group, hgroup, .inr ((under_iff hunique hmem).mpr ⟨_, hparent, .inr hunder⟩)⟩
  · intro n hn hid child hchild
    obtain ⟨hmem, hspared⟩ := (hkept n).mp hn
    obtain ⟨hin, hparent⟩ := mem_childrenOf.mp hchild
    refine (hkept child).mpr ⟨hin, ?_⟩
    rintro ⟨group, hgroup, rfl | hunder⟩
    · exact hid (Option.some.inj (hparent.symm.trans (hgroups _ hgroup).2))
    · obtain ⟨id, hother, hbelow⟩ := (under_iff hunique hin).mp hunder
      obtain rfl := Option.some.inj (hparent.symm.trans hother)
      rcases hbelow with heq | hbelow
      · exact hspared ⟨group, hgroup, .inl
          (List.inj_on_of_nodup_map hunique hmem (hgroups group hgroup).1 heq)⟩
      · exact hspared ⟨group, hgroup, .inr hbelow⟩
  · exact ((hkept group).mp hmem).2 ⟨group, hgroup, .inl rfl⟩

theorem filter_eq_of_sublist {nodes : List Node} {p : Node → Bool} (hsub : kept.Sublist nodes)
    (hnodup : nodes.Nodup) (h : ∀ n ∈ nodes, p n = true → n ∈ kept) : kept.filter p = nodes.filter p := by
  have hsubset : nodes.filter p ⊆ kept.filter p := by
    intro n hn
    obtain ⟨hmem, hp⟩ := List.mem_filter.mp hn
    exact List.mem_filter.mpr ⟨h n hmem hp, hp⟩
  exact (hsub.filter p).eq_of_length_le ((hnodup.filter p).subperm hsubset).length_le

/-! ### Nodes and links -/

section Switched

variable (hunique : (idsOf store.nodes).Nodup) (hs : store.Spares node kept)

include hunique hs

/-- The node as a call, other nodes that were there, and the new groups. -/
theorem mem_switched : n ∈ (switched node name fresh count kept).nodes ↔
    n = node.recast name ∨ n ∈ kept ∧ n.id ≠ node.id ∨
      ∃ slot < count, n = .ofGroup (fresh slot) (some node.id) (some slot) := by
  rw [switched, List.mem_append, mem_emptyArguments, List.mem_map, ← or_assoc]
  refine or_congr_left ?_
  constructor
  · rintro ⟨m, hm, rfl⟩
    by_cases hid : m.id = node.id
    · rw [List.inj_on_of_nodup_map hunique (hs.sublist.subset hm) hs.mem hid, Edit.revise_setFunction_self]
      exact .inl rfl
    · rw [Edit.revise_setFunction_of_ne hid]
      exact .inr ⟨hm, hid⟩
  · rintro (rfl | ⟨hn, hid⟩)
    · exact ⟨node, hs.self, Edit.revise_setFunction_self node name⟩
    · exact ⟨n, hn, Edit.revise_setFunction_of_ne hid name⟩

theorem roots_switched : (switched node name fresh count kept).roots =
    store.roots.map fun n => (Edit.setFunction node.id name).revise n := by
  have hgroups : (emptyArguments node.id fresh count).filter (·.parent.isNone) = [] := by
    rw [List.filter_eq_nil_iff]
    intro group hgroup
    obtain ⟨slot, -, rfl⟩ := mem_emptyArguments.mp hgroup
    simp [Node.ofGroup]
  have hroots : kept.filter (·.parent.isNone) = store.nodes.filter (·.parent.isNone) :=
    filter_eq_of_sublist hs.sublist (List.Nodup.of_map _ hunique) fun n hn hroot =>
      hs.root n hn (by simpa using hroot)
  rw [roots, switched, List.filter_append, hgroups, List.append_nil, List.filter_map, roots, ← hroots]
  simp only [Function.comp_def, (Edit.keepsLinks_setFunction node.id name).parent]

/-- The children of other nodes are the same. -/
theorem childrenOf_switched (hn : n ∈ kept) (hid : n.id ≠ node.id) :
    (switched node name fresh count kept).childrenOf n.id =
      (store.childrenOf n.id).map fun n => (Edit.setFunction node.id name).revise n := by
  have hkept : kept.filter (·.parent = some n.id) = store.nodes.filter (·.parent = some n.id) :=
    filter_eq_of_sublist hs.sublist (List.Nodup.of_map _ hunique) fun c hc hparent =>
      hs.child n hn hid c (List.mem_filter.mpr ⟨hc, hparent⟩)
  rw [switched, childrenOf_append (Ne.symm hid),
    (Edit.keepsLinks_setFunction node.id name).childrenOf_map ⟨kept⟩, childrenOf, hkept]
  rfl

/-- The children of the node are those that are left and the new groups. -/
theorem childrenOf_switched_self (hself : node.parent ≠ some node.id) :
    (switched node name fresh count kept).childrenOf node.id =
      (Store.mk kept).childrenOf node.id ++ emptyArguments node.id fresh count := by
  have hold : ((Store.mk kept).childrenOf node.id).map
      (fun n => (Edit.setFunction node.id name).revise n) = (Store.mk kept).childrenOf node.id := by
    refine (List.map_congr_left fun n hn => ?_).trans (List.map_id' _)
    obtain ⟨hmem, hparent⟩ := mem_childrenOf.mp hn
    refine Edit.revise_setFunction_of_ne (fun hid => hself ?_) name
    rwa [← List.inj_on_of_nodup_map hunique (hs.sublist.subset hmem) hs.mem hid, hid]
  have hnew : (emptyArguments node.id fresh count).filter (·.parent = some node.id) =
      emptyArguments node.id fresh count := by
    refine List.filter_eq_self.mpr fun group hgroup => ?_
    obtain ⟨slot, -, rfl⟩ := mem_emptyArguments.mp hgroup
    simp [Node.ofGroup]
  rw [← hold, ← (Edit.keepsLinks_setFunction node.id name).childrenOf_map ⟨kept⟩, switched, childrenOf,
    childrenOf, List.filter_append, hnew]

/-- The parent of a node that is left is in the new store, and a function if it was one. -/
theorem exists_owner_switched {owner : Node} (hn : n ∈ kept) (howner : owner ∈ store.nodes)
    (hparent : n.parent = some owner.id) :
    ∃ other ∈ (switched node name fresh count kept).nodes, other.id = owner.id ∧
      (owner.kind = .function → other.kind = .function) := by
  by_cases hid : owner.id = node.id
  · exact ⟨node.recast name, (mem_switched hunique hs).mpr (.inl rfl), hid.symm, fun _ => rfl⟩
  · have hmem : owner ∈ (switched node name fresh count kept).nodes :=
      (mem_switched hunique hs).mpr (.inr (.inl ⟨hs.owner n hn owner howner hparent, hid⟩))
    exact ⟨owner, hmem, rfl, id⟩

/-- If the node was an operand, operands stand among the roots where they stood. -/
theorem alternates_switched (hoperand : node.isOperand = true) :
    Role.alternates ((switched node name fresh count kept).roots.map Node.role) =
      Role.alternates (store.roots.map Node.role) := by
  rw [roots_switched hunique hs, List.map_map]
  refine Role.alternates_congr fun n hn => ?_
  rw [Function.comp_apply, Node.isOperand_role, Node.isOperand_role]
  by_cases hid : n.id = node.id
  · rw [List.inj_on_of_nodup_map hunique (mem_nodes_of_mem_roots hn) hs.mem hid,
      Edit.revise_setFunction_self]
    exact hoperand.symm
  · rw [Edit.revise_setFunction_of_ne hid]

end Switched

/-- A chain of parents in the new store starts at a new group, or was there before. -/
theorem transGen_of_switched (hnode : node ∈ store.nodes) (hsub : kept.Sublist store.nodes)
    (hunused : ∀ k < count, store.Unused (fresh k)) {id above : String}
    (h : TransGen (switched node name fresh count kept).ParentOf id above) :
    (∀ k < count, above ≠ fresh k) ∧ ((∀ k < count, id ≠ fresh k) → TransGen store.ParentOf id above) := by
  have hstep : ∀ {a b}, (switched node name fresh count kept).ParentOf a b →
      (∀ k < count, b ≠ fresh k) ∧ ((∀ k < count, a ≠ fresh k) → store.ParentOf a b) := by
    rintro _ b ⟨n, hn, rfl, hparent⟩
    rcases List.mem_append.mp hn with hn | hn
    · obtain ⟨m, hm, rfl⟩ := List.mem_map.mp hn
      have hmem : m ∈ store.nodes := hsub.subset hm
      rw [(Edit.keepsLinks_setFunction node.id name).parent] at hparent
      refine ⟨fun k hk heq => (hunused k hk).2 m hmem (heq ▸ hparent), fun _ => ?_⟩
      exact ⟨m, hmem, (Edit.revise_id _ m).symm, hparent⟩
    · obtain ⟨slot, hslot, rfl⟩ := mem_emptyArguments.mp hn
      obtain rfl : node.id = b := Option.some.inj hparent
      refine ⟨fun k hk heq => (hunused k hk).1 (heq ▸ List.mem_map_of_mem hnode), fun hold => ?_⟩
      exact absurd rfl (hold slot hslot)
  induction h with
  | single hab => exact ⟨(hstep hab).1, fun hid => .single ((hstep hab).2 hid)⟩
  | tail _ hab ih =>
    obtain ⟨hfresh, hold⟩ := hstep hab
    exact ⟨hfresh, fun hid => (ih.2 hid).tail (hold ih.1)⟩

/-! ### The shape -/

theorem filterMap_slot_emptyArguments (owner : String) (fresh : Nat → String) (count : Nat) :
    (emptyArguments owner fresh count).filterMap (·.slot) = firstSlots count := by
  rw [emptyArguments, List.filterMap_map, firstSlots, ← List.filterMap_eq_map]
  rfl

/-- No node of an intact store is its own parent. -/
theorem Intact.parent_ne_self (h : store.Intact) (hn : n ∈ store.nodes) : n.parent ≠ some n.id :=
  fun hparent => h.acyclic n.id (.single ⟨n, hn, rfl, hparent⟩)

section Shape

variable (h : store.WellFormed catalog) (hs : store.Spares node kept)
  (hkind : node.kind.isLeaf = true ∨ node.kind = .function)

include h hkind

/-- A leaf and a function have no children but arguments. -/
theorem WellFormed.isArgument_of_mem_childrenOf (hnode : node ∈ store.nodes)
    (hn : n ∈ store.childrenOf node.id) : n.isArgument = true := by
  rcases hkind with hleaf | hfunction
  · rw [h.leaf node hnode hleaf] at hn
    cases hn
  · exact h.arguments node hnode hfunction n hn

include hs

theorem WellFormed.revise_of_isArgument (hn : n ∈ store.nodes) (hargument : n.isArgument = true) :
    (Edit.setFunction node.id name).revise n = n := by
  refine Edit.revise_setFunction_of_ne (fun hid => ?_) name
  obtain rfl := List.inj_on_of_nodup_map h.unique hn hs.mem hid
  obtain ⟨hgroup, -⟩ := Node.isArgument_iff.mp hargument
  rw [hgroup] at hkind
  rcases hkind with hleaf | hfunction
  · cases hleaf
  · cases hfunction

/-- The children of other functions are the same. -/
theorem WellFormed.childrenOf_switched_function (hn : n ∈ kept) (hid : n.id ≠ node.id)
    (hfunction : n.kind = .function) :
    (switched node name fresh count kept).childrenOf n.id = store.childrenOf n.id := by
  rw [childrenOf_switched h.unique hs hn hid]
  refine (List.map_congr_left fun c hc => ?_).trans (List.map_id' _)
  exact h.revise_of_isArgument hs hkind (mem_childrenOf.mp hc).1
    (h.arguments n (hs.sublist.subset hn) hfunction c hc)

/-- The links of the new store are those of a formula. -/
theorem WellFormed.intact_switched (hfresh : ((List.range count).map fresh).Nodup)
    (hunused : ∀ k < count, store.Unused (fresh k)) :
    (switched node name fresh count kept).Intact := by
  constructor
  case unique =>
    have hadded : (idsOf (emptyArguments node.id fresh count)).Nodup := by
      rw [idsOf, emptyArguments, List.map_map]
      exact hfresh
    refine Leaves.nodup ⟨_, _, List.Perm.refl _, hs.sublist.map _, hadded, ?_⟩ h.unique
    intro group hgroup
    obtain ⟨slot, hslot, rfl⟩ := mem_emptyArguments.mp hgroup
    exact (hunused slot hslot).1
  case parents =>
    intro n hn parent hparent
    rcases (mem_switched h.unique hs).mp hn with rfl | ⟨hn, -⟩ | ⟨slot, -, rfl⟩
    · obtain ⟨owner, hin, rfl⟩ := h.parents node hs.mem parent hparent
      obtain ⟨other, hother, hid, -⟩ := exists_owner_switched h.unique hs hs.self hin hparent
      exact ⟨other, hother, hid⟩
    · obtain ⟨owner, hin, rfl⟩ := h.parents n (hs.sublist.subset hn) parent hparent
      obtain ⟨other, hother, hid, -⟩ := exists_owner_switched h.unique hs hn hin hparent
      exact ⟨other, hother, hid⟩
    · exact ⟨node.recast name, (mem_switched h.unique hs).mpr (.inl rfl), Option.some.inj hparent⟩
  case acyclic =>
    intro id hcycle
    obtain ⟨hold, hchain⟩ := transGen_of_switched hs.mem hs.sublist hunused hcycle
    exact h.acyclic id (hchain hold)
  case leaf =>
    intro n hn hleaf
    rcases (mem_switched h.unique hs).mp hn with rfl | ⟨hn, hid⟩ | ⟨slot, -, rfl⟩
    · cases hleaf
    · rw [childrenOf_switched h.unique hs hn hid, h.leaf n (hs.sublist.subset hn) hleaf, List.map_nil]
    · cases hleaf
  case arguments =>
    intro n hn hfunction child hchild
    rcases (mem_switched h.unique hs).mp hn with rfl | ⟨hn, hid⟩ | ⟨slot, -, rfl⟩
    · have hchild : child ∈ (switched node name fresh count kept).childrenOf node.id := hchild
      rw [childrenOf_switched_self h.unique hs (h.parent_ne_self hs.mem)] at hchild
      rcases List.mem_append.mp hchild with hchild | hchild
      · obtain ⟨hin, hparent⟩ := mem_childrenOf.mp hchild
        exact h.isArgument_of_mem_childrenOf hkind hs.mem
          (mem_childrenOf.mpr ⟨hs.sublist.subset hin, hparent⟩)
      · obtain ⟨slot, -, rfl⟩ := mem_emptyArguments.mp hchild
        rfl
    · rw [h.childrenOf_switched_function hs hkind hn hid hfunction] at hchild
      exact h.arguments n (hs.sublist.subset hn) hfunction child hchild
    · cases hfunction
  case argument =>
    intro n hn hargument
    rcases (mem_switched h.unique hs).mp hn with rfl | ⟨hn, -⟩ | ⟨slot, -, rfl⟩
    · cases hargument
    · obtain ⟨owner, hin, hparent, hfunction⟩ := h.argument n (hs.sublist.subset hn) hargument
      obtain ⟨other, hother, hid, hkept⟩ := exists_owner_switched h.unique hs hn hin hparent
      exact ⟨other, hother, by rw [hparent, hid], hkept hfunction⟩
    · exact ⟨node.recast name, (mem_switched h.unique hs).mpr (.inl rfl), rfl, rfl⟩

/-- **A node of a well-formed store can become a call of a function that takes the arguments it has
then.** -/
theorem WellFormed.of_spares (hoperand : node.isOperand = true)
    (hfresh : ((List.range count).map fresh).Nodup)
    (hunused : ∀ k < count, store.Unused (fresh k)) {own : String} {signature : Signature}
    (hname : name = some own) (hsignature : Signature.find? own = some signature)
    (htakes : signature.arity.Takes
      (((Store.mk kept).childrenOf node.id).filterMap (·.slot) ++ firstSlots count)) :
    (switched node name fresh count kept).WellFormed catalog := by
  refine { h.intact_switched hs hkind hfresh hunused with
    operator := ?_, reference := ?_, function := ?_, roots := ?_ }
  · intro n hn hoperator
    rcases (mem_switched h.unique hs).mp hn with rfl | ⟨hn, -⟩ | ⟨slot, -, rfl⟩
    · cases hoperator
    · exact h.operator n (hs.sublist.subset hn) hoperator
    · cases hoperator
  · intro n hn hreference
    rcases (mem_switched h.unique hs).mp hn with rfl | ⟨hn, -⟩ | ⟨slot, -, rfl⟩
    · cases hreference
    · exact h.reference n (hs.sublist.subset hn) hreference
    · cases hreference
  · intro n hn hfunction
    rcases (mem_switched h.unique hs).mp hn with rfl | ⟨hn, hid⟩ | ⟨slot, -, rfl⟩
    · refine ⟨own, signature, hname, hsignature, ?_⟩
      show signature.arity.Takes
        (((switched node name fresh count kept).childrenOf node.id).filterMap (·.slot))
      rwa [childrenOf_switched_self h.unique hs (h.parent_ne_self hs.mem), List.filterMap_append,
        filterMap_slot_emptyArguments]
    · rw [h.childrenOf_switched_function hs hkind hn hid hfunction]
      exact h.function n (hs.sublist.subset hn) hfunction
    · cases hfunction
  · rw [alternates_switched h.unique hs hoperand, roots_switched h.unique hs, List.map_eq_nil_iff]
    exact h.roots

end Shape

/-! ### Switching -/

/-- The slots of the arguments that a node has are the first ones, also if it has none. -/
theorem WellFormed.exists_slots (h : store.WellFormed catalog) (hnode : node ∈ store.nodes)
    (hkind : node.kind.isLeaf = true ∨ node.kind = .function) :
    ∃ count, ((store.childrenOf node.id).filterMap (·.slot)).Perm (firstSlots count) := by
  rcases hkind with hleaf | hfunction
  · rw [h.leaf node hnode hleaf]
    exact ⟨0, List.Perm.refl _⟩
  · obtain ⟨-, signature, -, -, htakes⟩ := h.function node hnode hfunction
    exact htakes.exists_perm

/-- **A node of a well-formed store can become a call of every function**, and the store stays well
formed. -/
theorem WellFormed.setFunction (h : store.WellFormed catalog) (hnode : node ∈ store.nodes)
    (hkind : node.kind.isLeaf = true ∨ node.kind = .function) (hoperand : node.isOperand = true)
    {own : String} (hname : isFunctionName own = true)
    (hcount : (Signature.fixedArity? (some own)).getD 0 = count)
    (hfresh : ((List.range count).map fresh).Nodup) (hunused : ∀ k < count, store.Unused (fresh k)) :
    ∃ kept, store.Spares node kept ∧ store.setFunction node.id (some own) fresh =
        .ok (emptyArguments node.id fresh count, switched node (some own) fresh count kept) ∧
      (switched node (some own) fresh count kept).WellFormed catalog := by
  obtain ⟨signature, hsignature⟩ := Option.isSome_iff_exists.mp hname
  have harity := @Signature.fixedArity?_eq_some_iff own signature hsignature
  cases hfixed : Signature.fixedArity? (some own) with
  | none =>
    obtain rfl : count = 0 := by rw [← hcount, hfixed, Option.getD_none]
    have hvariadic : signature.arity = .variadic := by
      cases hsome : signature.arity with
      | variadic => rfl
      | exactly takes =>
        rw [harity.mpr hsome] at hfixed
        cases hfixed
    have hsame : switched node (some own) fresh 0 store.nodes =
        ⟨store.nodes.map fun n => (Edit.setFunction node.id (some own)).revise n⟩ := by
      rw [switched, emptyArguments, List.range_zero, List.map_nil, List.append_nil]
    refine ⟨store.nodes, .refl hnode, ?_, ?_⟩
    · rw [setFunction_of_not_exactly h.unique hnode hfixed, hsame]
      rfl
    · refine h.of_spares (.refl hnode) hkind hoperand hfresh hunused rfl hsignature ?_
      rw [hvariadic, firstSlots, List.range_zero, List.map_nil, List.append_nil]
      exact h.exists_slots hnode hkind
  | some takes =>
    obtain rfl : count = takes := by rw [← hcount, hfixed, Option.getD_some]
    obtain ⟨after, hedit, hrebuilds⟩ :=
      setFunction_of_exactly h.unique hnode (h.acyclic node.id) hfixed hunused
    obtain ⟨kept, hs, hgone, hnodes⟩ := hrebuilds.spares h.unique
    obtain rfl : after = switched node (some own) fresh count kept := by
      cases after
      exact congrArg Store.mk hnodes
    refine ⟨kept, hs, hedit, h.of_spares hs hkind hoperand hfresh hunused rfl hsignature ?_⟩
    have hnone : (Store.mk kept).childrenOf node.id = [] := by
      refine List.eq_nil_iff_forall_not_mem.mpr fun c hc => ?_
      obtain ⟨hmem, hparent⟩ := mem_childrenOf.mp hc
      have hchild : c ∈ store.childrenOf node.id :=
        mem_childrenOf.mpr ⟨hs.sublist.subset hmem, hparent⟩
      exact hgone c (mem_argumentsOf.mpr
        ⟨hchild, h.isArgument_of_mem_childrenOf hkind hnode hchild⟩) hmem
    rw [hnone, harity.mp hfixed]
    exact List.Perm.refl _

/-- **Switching functions keeps a valid store valid**, with a catalog and without one. -/
theorem isValid_setFunction (store : Store) (catalog : Option Catalog)
    (hnamed : ∀ node ∈ store.nodes, node.id ≠ "")
    (hvalid : (store.structureReport catalog).isValid = true) (hnode : node ∈ store.nodes)
    (hkind : node.kind = .reference ∨ node.kind = .value ∨ node.kind = .function) {own : String}
    (hname : isFunctionName own = true) (fresh : Nat → String)
    (hfresh : ((List.range ((Signature.fixedArity? (some own)).getD 0)).map fresh).Nodup)
    (hunused : ∀ k < (Signature.fixedArity? (some own)).getD 0, store.Unused (fresh k)) :
    ∃ groups after, store.setFunction node.id (some own) fresh = .ok (groups, after) ∧
      (after.structureReport catalog).isValid = true := by
  have hwell := wellFormed_of_isValid hvalid
  have hcall : node.kind.isLeaf = true ∨ node.kind = .function := by
    rcases hkind with hkind | hkind | hkind <;> simp [hkind, Kind.isLeaf]
  have hoperand : node.isOperand = true := by
    rcases hkind with hkind | hkind | hkind <;> simp [Node.isOperand, Kind.isOperand, hkind]
  obtain ⟨kept, hs, hedit, hswitched⟩ :=
    hwell.setFunction hnode hcall hoperand hname rfl hfresh hunused
  refine ⟨_, _, hedit, hswitched.isValid_of_parents fun n hn => ?_⟩
  rcases (mem_switched hwell.unique hs).mp hn with rfl | ⟨hn, -⟩ | ⟨slot, -, rfl⟩
  · show node.parent ≠ some ""
    exact hwell.parent_ne_empty hnamed hnode
  · exact hwell.parent_ne_empty hnamed (hs.sublist.subset hn)
  · exact fun hparent => hnamed node hnode (Option.some.inj hparent)

theorem isValid_setFunction_conjunction :
    (conjunction.structureReport (some [⟨"a", "A", none⟩])).isValid = true ∧
      conjunction.Unused (nodeId 0) ∧
      (∃ groups after, conjunction.setFunction "and" (some "NOT") nodeId = .ok (groups, after) ∧
        (after.structureReport (some [⟨"a", "A", none⟩])).isValid = true) ∧
      ∃ groups after, conjunction.setFunction "and" (some "OR") nodeId = .ok (groups, after) ∧
        (after.structureReport (some [⟨"a", "A", none⟩])).isValid = true := by
  have hnamed : ∀ node ∈ conjunction.nodes, node.id ≠ "" := by decide
  have hvalid : (conjunction.structureReport (some [⟨"a", "A", none⟩])).isValid = true := by decide
  have hcall : .ofFunction "and" none (some "AND") ∈ conjunction.nodes := by decide
  have hunused : conjunction.Unused (nodeId 0) := ⟨by decide, by decide⟩
  have hnot : (Signature.fixedArity? (some "NOT")).getD 0 = 1 := by decide
  have hor : (Signature.fixedArity? (some "OR")).getD 0 = 0 := by decide
  refine ⟨hvalid, hunused, ?_, ?_⟩
  · refine isValid_setFunction conjunction _ hnamed hvalid hcall (.inr (.inr rfl)) (by decide) nodeId ?_ ?_
    · decide
    · intro k hk
      obtain rfl : k = 0 := by omega
      exact hunused
  · refine isValid_setFunction conjunction _ hnamed hvalid hcall (.inr (.inr rfl)) (by decide) nodeId ?_ ?_
    · decide
    · intro k hk
      omega

end Store
end Formulary
