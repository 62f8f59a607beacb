/-
# The types of operands

In a forest that has children of the right kind only, inference comes to every operand, wherever it
stands, and records the type that it finds for its tree (`Tree.record_mem_inferSequence`). What the report
of an intact store has for an operand is this type (`Store.Intact.lookup_operand`), and for a reference
that the catalog knows it is the one that the catalog declares.

Key theorems: `Tree.record_mem_inferSequence`, `Store.Intact.lookup_operand`,
`Store.Intact.lookup_reference`.
-/
import Formulary.Proofs.Store.Arranged
import Formulary.Proofs.Typing.Findings

namespace Formulary
namespace Tree

variable (catalog : Catalog) {s : Tree}

theorem type_infer_group {node : Node} (hkind : node.kind = .group) (children : List Tree) :
    (infer catalog (mk node children)).type =
      (Typed.sequence (children.map Tree.node) (inferOperands catalog children)).type := by
  rw [infer_group catalog hkind]
  simp only [Typed.recordAs]
  split <;> rfl

mutual

theorem record_mem_of_subtrees (hs : s.node.isOperand = true) : ∀ {t : Tree}, t.Shaped →
    ShapedAll t.children → s ∈ t.subtrees →
    (s.node.id, (infer catalog s).type) ∈ (infer catalog t).records
  | mk node children, hshaped, hall, hmem => by
    rcases List.mem_cons.mp hmem with rfl | hmem
    · exact record_mem_infer catalog _
    have hall : ShapedAll children := hall
    have hnil (hleaf : node.kind.isLeaf = true) : s ∉ subtreesAll children := by
      rw [show children = [] from hshaped.leaf hleaf]
      exact List.not_mem_nil
    rw [infer]
    refine List.mem_append_left _ ?_
    cases hkind : node.kind with
    | value => exact (hnil (by rw [hkind]; rfl) hmem).elim
    | reference => exact (hnil (by rw [hkind]; rfl) hmem).elim
    | operator => exact (hnil (by rw [hkind]; rfl) hmem).elim
    | function =>
      simp only [records_call]
      exact record_mem_of_arguments hs (hshaped.arguments hkind) hall hmem
    | group =>
      have hbelow := record_mem_of_operands hs hall hmem
      simp only
      split
      · exact List.mem_append_left _ hbelow
      · exact List.mem_append_left _ hbelow

theorem record_mem_of_operands (hs : s.node.isOperand = true) : ∀ {ts : List Tree}, ShapedAll ts →
    s ∈ subtreesAll ts →
    (s.node.id, (infer catalog s).type) ∈ (inferOperands catalog ts).flatMap (·.2.records)
  | t :: rest, h, hmem => by
    obtain ⟨hshaped, hchildren, hrest⟩ := h.cons
    unfold inferOperands
    rcases List.mem_append.mp hmem with hmem | hmem
    · by_cases hoperand : t.node.isOperand = true
      · rw [if_pos hoperand, List.flatMap_cons]
        exact List.mem_append_left _ (record_mem_of_subtrees hs hshaped hchildren hmem)
      · -- An operator has nothing below it, so that the operand would be the operator.
        have hkind : t.node.kind = .operator := by
          simpa [Node.isOperand, Kind.isOperand] using hoperand
        obtain ⟨node, children⟩ := t
        have hnil : children = [] := hshaped.leaf (by rw [hkind]; rfl)
        rw [hnil] at hmem
        obtain rfl := List.mem_singleton.mp hmem
        exact (hoperand hs).elim
    · have ih := record_mem_of_operands hs hrest hmem
      split
      · exact List.mem_append_right _ ih
      · exact ih

theorem record_mem_of_arguments (hs : s.node.isOperand = true) : ∀ {ts : List Tree},
    (∀ t ∈ ts, t.node.isArgument = true) → ShapedAll ts → s ∈ subtreesAll ts →
    (s.node.id, (infer catalog s).type) ∈ (inferArguments catalog ts).flatMap (·.2.records)
  | mk group children :: rest, harguments, h, hmem => by
    obtain ⟨-, hchildren, hrest⟩ := h.cons
    have hkind : group.kind = .group :=
      (Node.isArgument_iff.mp (harguments _ List.mem_cons_self)).1
    unfold inferArguments
    rw [List.flatMap_cons]
    rcases List.mem_append.mp hmem with hmem | hmem
    · refine List.mem_append_left _ ?_
      rcases List.mem_cons.mp hmem with rfl | hmem
      · rw [type_infer_group catalog hkind]
        exact List.mem_append_right _ (List.mem_singleton_self _)
      · have hbelow := record_mem_of_operands hs hchildren hmem
        exact List.mem_append_left _ (List.mem_append_left _ hbelow)
    · exact List.mem_append_right _ (record_mem_of_arguments hs
        (fun t ht => harguments t (List.mem_cons_of_mem _ ht)) hrest hmem)

end

/-- **Every operand in a forest is recorded with the type of its tree.** -/
theorem record_mem_inferSequence {ts : List Tree} (h : ShapedAll ts) (hs : s.node.isOperand = true)
    (hmem : s ∈ subtreesAll ts) :
    (s.node.id, (infer catalog s).type) ∈ (inferSequence catalog ts).records :=
  List.mem_append_left _ (record_mem_of_operands catalog hs h hmem)

end Tree

namespace Store

open Formulary.Tree

variable {store : Store}

/-- A report has a type for every node. -/
theorem lookup_inferTypes (catalog : Catalog) {node : Node} (hnode : node ∈ store.nodes) :
    (store.inferTypes catalog).types.lookup node.id =
      some ((store.inferTypes catalog).typeOf node.id) := by
  rw [TypeReport.typeOf, lookup_inferTypes_eq catalog (List.mem_map_of_mem hnode)]
  rfl

/-- **The report of an intact store has for an operand the type of its tree.** -/
theorem Intact.lookup_operand (h : store.Intact)
    (hslots : ∀ node ∈ store.nodes, node.kind = .function →
      ((store.argumentsOf node.id).map (·.slot)).Nodup) (catalog : Catalog) {t : Tree}
    (ht : t ∈ subtreesAll store.forest) (hoperand : t.node.isOperand = true) :
    (store.inferTypes catalog).types.lookup t.node.id = some (infer catalog t).type := by
  have hrecord := record_mem_inferSequence catalog (h.shapedAll hslots) hoperand ht
  rw [lookup_inferTypes catalog (subtrees_forest h.acyclic ht).1,
    h.agrees_inferTypes hslots catalog _ hrecord]

/-- **The report of an intact store has for a reference what the catalog declares.** -/
theorem Intact.lookup_reference (h : store.Intact)
    (hslots : ∀ node ∈ store.nodes, node.kind = .function →
      ((store.argumentsOf node.id).map (·.slot)).Nodup) (catalog : Catalog) {node : Node}
    (hnode : node ∈ store.nodes) (hkind : node.kind = .reference) :
    (store.inferTypes catalog).types.lookup node.id =
      some (Typed.reference catalog node).type := by
  obtain ⟨⟨top, children⟩, ht, rfl⟩ := h.isForest.exists_subtree hnode
  have hkind : top.kind = .reference := hkind
  have hoperand : top.isOperand = true := by rw [Node.isOperand, hkind]; rfl
  rw [h.lookup_operand hslots catalog ht hoperand]
  unfold infer
  rw [hkind]
  rfl

end Store
end Formulary
