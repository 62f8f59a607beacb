/-
# Intact stores

A store is intact if its identifiers are unique, its parents exist and run in no circle, and every node
has children of the right kind only: leaves have none, functions have argument groups, and argument
groups stand below functions. Nothing is asked of what the nodes hold. An intact store is a forest, in
which the children of a node are the nodes that are read below it.

Key definition: `Store.Intact`.
Key theorem: `Store.Intact.isForest`.
-/
import Formulary.Proofs.Store.Forest

namespace Formulary
namespace Store

/-- Whether the nodes of a store are linked as those of a formula are. -/
structure Intact (store : Store) : Prop where
  unique : (idsOf store.nodes).Nodup
  parents : ∀ node ∈ store.nodes, ∀ parent, node.parent = some parent →
    ∃ owner ∈ store.nodes, owner.id = parent
  acyclic : ∀ id, ¬Relation.TransGen store.ParentOf id id
  leaf : ∀ node ∈ store.nodes, node.kind.isLeaf = true → store.childrenOf node.id = []
  /-- The children of a function are its arguments. -/
  arguments : ∀ node ∈ store.nodes, node.kind = .function →
    ∀ child ∈ store.childrenOf node.id, child.isArgument = true
  /-- An argument belongs to a function. -/
  argument : ∀ node ∈ store.nodes, node.isArgument = true →
    ∃ owner ∈ store.nodes, node.parent = some owner.id ∧ owner.kind = .function

namespace Intact

variable {store : Store}

/-- Every child of a node is read below it. -/
theorem isForest (h : store.Intact) : store.IsForest where
  unique := h.unique
  parents := h.parents
  acyclic := h.acyclic
  reached := by
    intro node hnode child hchild
    unfold below
    split
    · exact hchild
    · next hkind => exact mem_argumentsOf.mpr ⟨hchild, h.arguments node hnode hkind child hchild⟩
    all_goals
      next hkind =>
        rw [h.leaf node hnode (by rw [hkind]; rfl)] at hchild
        exact hchild

/-- The children of a group are no arguments. -/
theorem isArgument_of_mem_childrenOf (h : store.Intact) {node child : Node}
    (hnode : node ∈ store.nodes) (hkind : node.kind = .group)
    (hchild : child ∈ store.childrenOf node.id) : child.isArgument = false := by
  obtain ⟨hmem, hparent⟩ := mem_childrenOf.mp hchild
  by_contra hargument
  obtain ⟨owner, howner, hof, hfunction⟩ := h.argument child hmem (by simpa using hargument)
  have hid : owner.id = node.id := Option.some.inj (hof.symm.trans hparent)
  rw [h.isForest.eq_of_id howner hnode hid, hkind] at hfunction
  cases hfunction

theorem isArgument_of_mem_roots (h : store.Intact) {root : Node} (hroot : root ∈ store.roots) :
    root.isArgument = false := by
  by_contra hargument
  obtain ⟨owner, -, hof, -⟩ := h.argument root (mem_nodes_of_mem_roots hroot)
    (by simpa using hargument)
  have hnone := (List.mem_filter.mp hroot).2
  rw [hof] at hnone
  cases hnone

/-- The arguments of a function are its children, in the order of their slots. -/
theorem perm_argumentsOf (h : store.Intact) {node : Node} (hnode : node ∈ store.nodes)
    (hkind : node.kind = .function) :
    (store.argumentsOf node.id).Perm (store.childrenOf node.id) := by
  have hfilter : (store.childrenOf node.id).filter (·.isArgument) = store.childrenOf node.id :=
    List.filter_eq_self.mpr (h.arguments node hnode hkind)
  rw [argumentsOf, hfilter]
  exact sortBy_perm _ _

end Intact
end Store
end Formulary
