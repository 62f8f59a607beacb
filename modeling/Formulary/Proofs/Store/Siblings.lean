/-
# Siblings

The siblings of a node are the nodes with the same parent, in the order of the list. An operator can go
between a node and its next sibling, and between no other nodes (`Store.insertOperator_of_next`,
`Store.requireAdjacent_of_apart`). The check compares identifiers, of which the first use counts; where
they are unique, the next sibling is simply the node behind (`Store.nextSibling_iff`).

Key definition: `Store.NextSibling`.
Key theorems: `Store.nextSibling_iff`, `Store.insertOperator_of_next`, `Store.requireAdjacent_of_apart`.
-/
import Formulary.Proofs.Store.Edits

namespace Formulary
namespace Store

/-- Whether the node `after` follows the node `before` among the nodes with the same parent. Where
several nodes have the identifier `before`, it has to follow the first of them. -/
def NextSibling (store : Store) (before after : String) : Prop :=
  ∃ left right, store.get? before = some left ∧ store.get? after = some right ∧
    right.parent = left.parent ∧
      ∃ first rest, idsOf (store.nodes.filter (·.parent = left.parent)) =
        first ++ before :: after :: rest ∧ before ∉ first

variable {store : Store} {node : Node} {id before after : String}

/-! ### The checks of an edit -/

theorem error_bind {α β : Type} (e : EditError) (f : α → Except EditError β) :
    ((Except.error e : Except EditError α) >>= f) = .error e := rfl

theorem ok_bind {α β : Type} (a : α) (f : α → Except EditError β) :
    ((Except.ok a : Except EditError α) >>= f) = f a := rfl

theorem requireNew_of_mem (h : node.id ∈ idsOf store.nodes) :
    store.requireNew node = .error (.idInUse node.id) := by
  have hcontains : store.contains node.id = true := by
    by_contra hnot
    exact contains_eq_false_iff.mp (by simpa using hnot) h
  rw [requireNew, if_pos hcontains]

theorem requireNew_of_notMem (h : node.id ∉ idsOf store.nodes) : store.requireNew node = .ok () := by
  rw [requireNew, contains_eq_false_iff.mpr h]
  rfl

theorem get?_eq_none_iff : store.get? id = none ↔ id ∉ idsOf store.nodes := by
  rw [← contains_eq_false_iff, contains, get?, List.find?_eq_none, List.any_eq_false]

theorem require_of_notMem (h : id ∉ idsOf store.nodes) : store.require id = .error (.missingNode id) := by
  rw [require, get?_eq_none_iff.mpr h]

theorem exists_require (h : id ∈ idsOf store.nodes) :
    ∃ node, store.get? id = some node ∧ store.require id = .ok node := by
  cases hget : store.get? id with
  | none => exact absurd h (get?_eq_none_iff.mp hget)
  | some node => exact ⟨node, rfl, by rw [require, hget]⟩

/-! ### The next sibling -/

/-- Where identifiers are unique, no other node has that of a node. -/
theorem id_notMem_of_nodup {first rest : List Node} (h : (idsOf (first ++ node :: rest)).Nodup) :
    node.id ∉ idsOf (first ++ rest) := by
  rw [idsOf, List.map_append, List.map_cons, List.nodup_middle, ← List.map_append] at h
  exact (List.nodup_cons.mp h).1

theorem isNext_iff {ids : List String} : isNext before after ids = true ↔
    ∃ first rest, ids = first ++ before :: after :: rest ∧ before ∉ first := by
  induction ids with
  | nil => simp [isNext]
  | cons id ids ih =>
    rw [isNext]
    by_cases hid : id = before
    · subst hid
      rw [if_pos rfl, decide_eq_true_eq]
      constructor
      · intro hhead
        obtain ⟨rest, rfl⟩ := List.head?_eq_some_iff.mp hhead
        exact ⟨[], rest, rfl, List.not_mem_nil⟩
      · rintro ⟨first, rest, heq, hfirst⟩
        cases first with
        | nil =>
          obtain ⟨-, rfl⟩ := List.cons.inj heq
          rfl
        | cons other first =>
          obtain ⟨rfl, -⟩ := List.cons.inj heq
          exact absurd List.mem_cons_self hfirst
    · rw [if_neg hid, ih]
      constructor
      · rintro ⟨first, rest, rfl, hfirst⟩
        exact ⟨id :: first, rest, rfl, by simp [hfirst, Ne.symm hid]⟩
      · rintro ⟨first, rest, heq, hfirst⟩
        cases first with
        | nil => exact absurd (List.cons.inj heq).1 hid
        | cons other first =>
          obtain ⟨rfl, rfl⟩ := List.cons.inj heq
          exact ⟨first, rest, rfl, fun hmem => hfirst (List.mem_cons_of_mem _ hmem)⟩

theorem NextSibling.mem (h : store.NextSibling before after) :
    before ∈ idsOf store.nodes ∧ after ∈ idsOf store.nodes := by
  obtain ⟨left, right, hleft, hright, -⟩ := h
  obtain ⟨hleft', rfl⟩ := mem_of_get? hleft
  obtain ⟨hright', rfl⟩ := mem_of_get? hright
  exact ⟨List.mem_map_of_mem hleft', List.mem_map_of_mem hright'⟩

/-- Where identifiers are unique, the next sibling of a node stands right behind it among the nodes with
its parent. -/
theorem nextSibling_iff (hunique : (idsOf store.nodes).Nodup) : store.NextSibling before after ↔
    ∃ parent first left right rest, store.nodes.filter (·.parent = parent) =
      first ++ left :: right :: rest ∧ left.id = before ∧ right.id = after := by
  constructor
  · rintro ⟨left, right, -, -, -, first, rest, hids, -⟩
    obtain ⟨others, tail, hsplit, -, htail⟩ := List.map_eq_append_iff.mp hids
    obtain ⟨n, tail, rfl, hn, htail⟩ := List.map_eq_cons_iff.mp htail
    obtain ⟨m, tail, rfl, hm, -⟩ := List.map_eq_cons_iff.mp htail
    exact ⟨left.parent, others, n, m, tail, hsplit, hn, hm⟩
  · rintro ⟨parent, first, left, right, rest, hsplit, rfl, rfl⟩
    have hmem : ∀ n ∈ first ++ left :: right :: rest, n ∈ store.nodes ∧ n.parent = parent := by
      intro n hn
      rw [← hsplit, List.mem_filter, decide_eq_true_eq] at hn
      exact hn
    obtain ⟨hleft, rfl⟩ := hmem left (by simp)
    obtain ⟨hright, hparent⟩ := hmem right (by simp)
    refine ⟨left, right, get?_of_unique hunique hleft, get?_of_unique hunique hright, hparent,
      idsOf first, idsOf rest, ?_, ?_⟩
    · rw [hsplit]
      simp [idsOf]
    · have hnodup : (idsOf (first ++ left :: right :: rest)).Nodup := by
        rw [← hsplit]
        exact hunique.sublist (List.filter_sublist.map _)
      intro hbefore
      refine id_notMem_of_nodup hnodup ?_
      rw [idsOf, List.map_append]
      exact List.mem_append_left _ hbefore

theorem requireAdjacent_of_get? {left right : Node} (hleft : store.get? before = some left)
    (hright : store.get? after = some right) : store.requireAdjacent before after =
      if right.parent = left.parent &&
          isNext before after (idsOf (store.nodes.filter (·.parent = left.parent))) then
        .ok left.parent
      else .error (.notAdjacent before after) := by
  rw [requireAdjacent, require, require, hleft, hright]
  rfl

/-- An operator can go between a node and its next sibling. -/
theorem requireAdjacent_of_next {left : Node} (hleft : store.get? before = some left)
    (h : store.NextSibling before after) : store.requireAdjacent before after = .ok left.parent := by
  obtain ⟨first, right, hfirst, hright, hparent, hnext⟩ := h
  obtain rfl := Option.some.inj (hleft.symm.trans hfirst)
  rw [requireAdjacent_of_get? hleft hright, if_pos]
  simp [hparent, isNext_iff.mpr hnext]

/-- **An operator goes right behind the first of two adjacent siblings.** -/
theorem insertOperator_of_next {left : Node} (hleft : store.get? before = some left)
    (h : store.NextSibling before after) {fresh : String} (hfree : fresh ∉ idsOf store.nodes)
    (operator : Option String) : store.insertOperator before after operator fresh =
      .ok (.ofOperator fresh left.parent operator,
        ⟨putAfter before (.ofOperator fresh left.parent operator) store.nodes⟩) := by
  have hnew : store.requireNew (.ofOperator fresh left.parent operator) = .ok () :=
    requireNew_of_notMem hfree
  have hrequire : store.require before = .ok left := by rw [require, hleft]
  simp only [insertOperator, requireAdjacent_of_next hleft h, ok_bind, add, hnew, hrequire]
  rfl

/-- An operator can go between no other nodes. -/
theorem requireAdjacent_of_apart (hbefore : before ∈ idsOf store.nodes)
    (hafter : after ∈ idsOf store.nodes) (h : ¬store.NextSibling before after) :
    store.requireAdjacent before after = .error (.notAdjacent before after) := by
  obtain ⟨left, hleft, -⟩ := exists_require hbefore
  obtain ⟨right, hright, -⟩ := exists_require hafter
  rw [requireAdjacent_of_get? hleft hright, if_neg]
  intro hadjacent
  rw [Bool.and_eq_true, decide_eq_true_eq] at hadjacent
  exact h ⟨left, right, hleft, hright, hadjacent.1, isNext_iff.mp hadjacent.2⟩

end Store
end Formulary
