/-
# Stores that a text can express

A store can be written and read back if it is a forest whose nodes hold what their kind asks for, whose
functions have one argument group for each slot from zero on, and whose sequences do not run into what
the text cannot tell apart: a call of `AND`, `OR` or `NOT` behind an operand, such an operator in front
of a group without an operand before it, and a call with one empty argument. The forest of such a store
is regular, and its outline can be laid out and comes back as it is.

Key definitions: `Store.Expressible`, `Tree.nesting`.
Key theorems: `Store.Expressible.regular_forest`, `Store.Expressible.printable`,
`Store.Expressible.faithful`.
-/
import Formulary.Proofs.Number.Rounding
import Formulary.Proofs.Outline.Reread
import Formulary.Proofs.Store.Calls

namespace Formulary

namespace Tree

mutual

/-- How deeply functions and plain groups are nested in a tree. -/
def nesting : Tree → Nat
  | mk node children =>
    (if node.kind = .function ∨ node.kind = .group ∧ node.slot = none then 1 else 0) +
      nestingAll children

/-- How deeply functions and plain groups are nested in trees. -/
def nestingAll : List Tree → Nat
  | [] => 0
  | tree :: rest => max tree.nesting (nestingAll rest)

end

mutual

theorem height_outline : ∀ {t : Tree}, t.Regular → t.outline.height = t.nesting
  | mk node children, h => by
    unfold Regular at h
    unfold outline nesting
    split at h
    · next hkind => simp [hkind, h.2, Outline.height, nestingAll]
    · next hkind => simp [hkind, h.2, Outline.height, nestingAll]
    · next hkind => simp [hkind, h.2, Outline.height, nestingAll]
    · next hkind => simp [hkind, Outline.height, argumentHeight_outlines h.2]
    · next hkind => simp [hkind, h.1, Outline.height, sequenceHeight_outlines h.2]

/-- Parentheses are nested in the outline of trees as functions and groups are in the trees. -/
theorem sequenceHeight_outlines : ∀ {ts : List Tree}, RegularAll ts →
    Outline.sequenceHeight (outlines ts) = nestingAll ts
  | [], _ => rfl
  | t :: rest, h => by
    rw [outlines, Outline.sequenceHeight, nestingAll, height_outline h.1, sequenceHeight_outlines h.2]

theorem argumentHeight_outlines : ∀ {slot : Nat} {ts : List Tree}, RegularArguments slot ts →
    Outline.argumentHeight (argumentOutlines ts) = nestingAll ts
  | _, [], _ => rfl
  | slot, mk node children :: rest, h => by
    obtain ⟨hkind, hslot, hchildren, hrest⟩ := h
    rw [argumentOutlines, Outline.argumentHeight, nestingAll, nesting,
      sequenceHeight_outlines hchildren, argumentHeight_outlines hrest]
    simp [hkind, hslot]

end

end Tree

namespace Store

open Formulary.Tree

/-- Whether a store can be written as a text that is read back under a limit, once all its references
have an identifier. -/
structure Expressible (catalog : Catalog) (limit : Int) (store : Store) : Prop
    extends Intact store where
  reference : ∀ node ∈ store.nodes, node.kind = .reference →
    ∃ id, node.reference = some id ∧ catalog.Resolves id
  operator : ∀ node ∈ store.nodes, node.kind = .operator →
    ∃ symbol, node.operator = some symbol ∧ isOperator symbol = true
  value : ∀ node ∈ store.nodes, node.kind = .value →
    ∃ n q, node.value = some n ∧ n.value? = some q ∧ 0 ≤ q ∧ q < Number.ceiling
  function : ∀ node ∈ store.nodes, node.kind = .function →
    ∃ name, node.function = some name ∧ isFunctionName name = true
  /-- A function has one argument for each slot from zero on. -/
  slots : ∀ node ∈ store.nodes, node.kind = .function →
    ((store.childrenOf node.id).map (·.slot)).Perm
      ((List.range (store.childrenOf node.id).length).map fun slot : Nat => some (slot : Int))
  /-- No function has one argument that is empty and no other. -/
  hollow : ∀ node ∈ store.nodes, node.kind = .function →
    ∀ group, store.childrenOf node.id = [group] → store.childrenOf group.id ≠ []
  /-- No call of `AND`, `OR` or `NOT` stands behind an operand. -/
  calls : ∀ q ∈ store.sequences, Role.callsFit false (q.map Node.role) = true
  /-- No operator `AND`, `OR` or `NOT` stands in front of a group without an operand before it. -/
  words : ∀ q ∈ store.sequences, Role.misreads false (q.map Node.role) = 0
  nesting : (nestingAll store.forest : Int) ≤ limit

namespace Expressible

variable {catalog : Catalog} {limit : Int} {store : Store}

theorem arranged (h : store.Expressible catalog limit) : store.Arranged where
  toIntact := h.toIntact
  reference := fun node hnode hkind => by
    obtain ⟨id, hid, -⟩ := h.reference node hnode hkind
    rw [hid]
    rfl
  operator := fun node hnode hkind => by
    obtain ⟨symbol, hsymbol, -⟩ := h.operator node hnode hkind
    rw [hsymbol]
    rfl
  value := fun node hnode hkind => by
    obtain ⟨n, q, hn, -⟩ := h.value node hnode hkind
    rw [hn]
    rfl
  function := fun node hnode hkind => by
    obtain ⟨name, hname, -⟩ := h.function node hnode hkind
    rw [hname]
    rfl
  slots := h.slots

/-- **The forest of an expressible store is regular.** -/
theorem regular_forest (h : store.Expressible catalog limit) : RegularAll store.forest :=
  h.arranged.regular_forest

/-! ### The outline of the forest -/

/-- What is in the store can be expressed. -/
theorem sound (h : store.Expressible catalog limit)
    (hnamed : ∀ node ∈ store.nodes, node.kind = .reference → node.reference ≠ some "") {node : Node}
    (hnode : node ∈ store.nodes) : node.Sound catalog := by
  unfold Node.Sound
  cases hkind : node.kind with
  | reference =>
    obtain ⟨id, hid, hresolves⟩ := h.reference node hnode hkind
    exact ⟨id, hid, fun heq => hnamed node hnode hkind (by rw [hid, heq]), hresolves⟩
  | operator => exact h.operator node hnode hkind
  | value =>
    obtain ⟨n, q, hn, hq, hzero, hceiling⟩ := h.value node hnode hkind
    exact ⟨n, hn, Number.plain_of_value? hq hzero hceiling⟩
  | function => exact h.function node hnode hkind
  | group => trivial

/-- No call in the forest has one argument that is empty and no other. -/
theorem isHollow_outline (h : store.Expressible catalog limit) {t : Tree}
    (ht : t ∈ subtreesAll store.forest) : t.outline.isHollow = false := by
  by_cases hkind : t.node.kind = .function
  · rw [h.arranged.isHollow_outline ht hkind, Bool.eq_false_iff]
    intro hhollow
    obtain ⟨group, harguments, hempty⟩ := exists_of_isHollow hhollow
    -- The only argument is the only child, and it has no children.
    have hnode := (subtrees_forest h.acyclic ht).1
    have hperm := h.perm_argumentsOf hnode hkind
    rw [harguments] at hperm
    exact h.hollow t.node hnode hkind group (List.perm_singleton.mp hperm.symm) hempty
  · obtain ⟨node, children⟩ := t
    unfold outline
    split
    all_goals first | rfl | contradiction

/-- **The outline of an expressible store can be laid out.** -/
theorem printable (h : store.Expressible catalog limit)
    (hnamed : ∀ node ∈ store.nodes, node.kind = .reference → node.reference ≠ some "") :
    Outline.Printable catalog (outlines store.forest) := by
  intro q hq o ho
  obtain ⟨t, ht, rfl⟩ := (h.arranged.forall_sequences hq).2 o ho
  exact sound_outline (h.sound hnamed (subtrees_forest h.acyclic ht).1)

theorem fits (h : store.Expressible catalog limit) {q : List Outline}
    (hq : q ∈ Outline.sequences (outlines store.forest)) :
    Role.callsFit false (q.map Outline.role) = true := by
  obtain ⟨⟨nodes, hnodes, hroles⟩, -⟩ := h.arranged.forall_sequences hq
  rw [hroles]
  exact h.calls nodes hnodes

/-- **The outline of an expressible store comes back as it is.** -/
theorem faithful (h : store.Expressible catalog limit) :
    Outline.Faithful (outlines store.forest) := by
  intro q hq
  obtain ⟨⟨nodes, hnodes, hroles⟩, htrees⟩ := h.arranged.forall_sequences hq
  refine ⟨by rw [hroles]; exact h.words nodes hnodes, fun o ho => ?_⟩
  obtain ⟨t, ht, rfl⟩ := htrees o ho
  exact h.isHollow_outline ht

end Expressible
end Store
end Formulary
