/-
# Chains of parents

An identifier leads to the parent that the first node with it names. The chain of ancestors follows
these steps as far as they go without meeting an identifier twice, so it has all nodes that some number
of steps leads to (`mem_ancestors_iff`), and the test for a cycle is exact on every store, also
where identifiers repeat and parents are missing (`inCycle_iff`). Where identifiers are unique the steps
are those from a node to its parent (`parentOf_iff_leads`).

Key definition: `Store.Leads`.
Key theorems: `Store.mem_ancestors_iff`, `Store.inCycle_iff`.
-/
import Formulary.Proofs.Store.Forest

namespace Formulary
namespace Store

variable {store : Store}

/-- Whether the first node with the identifier `id` names `parent` as its parent. -/
def Leads (store : Store) (id parent : String) : Prop :=
  (store.get? id).bind (·.parent) = some parent

theorem Leads.unique {id parent other : String} (h : store.Leads id parent)
    (hother : store.Leads id other) : parent = other :=
  Option.some.inj (h.symm.trans hother)

theorem mem_of_get? {id : String} {node : Node} (h : store.get? id = some node) :
    node ∈ store.nodes ∧ node.id = id :=
  ⟨List.mem_of_find?_eq_some h, by simpa using List.find?_some h⟩

theorem Leads.exists_get? {id parent : String} (h : store.Leads id parent) :
    ∃ node, store.get? id = some node ∧ node.parent = some parent :=
  Option.bind_eq_some_iff.mp h

theorem Leads.parentOf {id parent : String} (h : store.Leads id parent) : store.ParentOf id parent := by
  obtain ⟨node, hnode, hparent⟩ := h.exists_get?
  obtain ⟨hmem, hid⟩ := mem_of_get? hnode
  exact ⟨node, hmem, hid, hparent⟩

/-- The first node with an identifier is the only one if identifiers are unique. -/
theorem get?_of_unique (h : (idsOf store.nodes).Nodup) {node : Node} (hnode : node ∈ store.nodes) :
    store.get? node.id = some node := by
  obtain ⟨first, hfirst⟩ : ∃ first, store.get? node.id = some first := by
    rw [← Option.isSome_iff_exists, get?, List.find?_isSome]
    exact ⟨node, hnode, by simp⟩
  obtain ⟨hmem, hid⟩ := mem_of_get? hfirst
  rw [hfirst, List.inj_on_of_nodup_map h hmem hnode hid]

theorem parentOf_iff_leads (h : (idsOf store.nodes).Nodup) {id parent : String} :
    store.ParentOf id parent ↔ store.Leads id parent := by
  constructor
  · rintro ⟨node, hnode, rfl, hparent⟩
    rw [Leads, get?_of_unique h hnode]
    exact hparent
  · exact Leads.parentOf

/-! ### Steps that avoid what was seen -/

/-- A step to a parent that is not among those seen. -/
def LeadsOff (store : Store) (seen : List String) (id parent : String) : Prop :=
  store.Leads id parent ∧ parent ∉ seen

/-- A chain need not come back to where it starts. -/
theorem leadsOff_cons {seen : List String} {start other : String}
    (h : Relation.TransGen (store.LeadsOff seen) start other) :
    Relation.TransGen (store.LeadsOff (start :: seen)) start other ∨ other = start := by
  induction h with
  | single hstep =>
    rename_i next
    by_cases heq : next = start
    · exact .inr heq
    · exact .inl (.single ⟨hstep.1, by simp [heq, hstep.2]⟩)
  | tail _ hstep ih =>
    rename_i last next _
    by_cases heq : next = start
    · exact .inr heq
    · have hoff : store.LeadsOff (start :: seen) last next := ⟨hstep.1, by simp [heq, hstep.2]⟩
      rcases ih with ih | rfl
      · exact .inl (ih.tail hoff)
      · exact .inl (.single hoff)

theorem countOf_unseen_lt {seen : List String} {node : Node} (hnode : node ∈ store.nodes)
    (hid : node.id ∉ seen) :
    store.countOf (fun n => n.id ∉ node.id :: seen) < store.countOf (fun n => n.id ∉ seen) :=
  countOf_lt (fun _ h hmem => h (List.mem_cons_of_mem _ hmem)) hnode hid
    (fun h => h List.mem_cons_self)

/-- The chain of ancestors misses no node that a chain of unseen parents leads to, as long as the fuel
lasts for the nodes that are unseen. -/
theorem mem_ancestorsFrom {fuel : Nat} {seen : List String} {id other : String} {node : Node}
    (hnode : store.get? other = some node)
    (hfuel : store.countOf (fun n => n.id ∉ seen) < fuel)
    (h : Relation.TransGen (store.LeadsOff seen) id other) :
    node ∈ store.ancestorsFrom fuel seen id := by
  induction fuel generalizing seen id with
  | zero => omega
  | succ fuel ih =>
    obtain ⟨parent, ⟨hleads, hunseen⟩, hrest⟩ := Relation.TransGen.head'_iff.mp h
    have hcontains : ¬seen.contains parent = true := by simpa using hunseen
    rw [ancestorsFrom, hleads]
    rcases Relation.reflTransGen_iff_eq_or_transGen.mp hrest with rfl | hrest
    · simp only [if_neg hcontains, hnode]
      exact List.mem_cons_self
    · -- The parent leads on, so that there is a node for it, which is seen from here on.
      obtain ⟨_, ⟨hnext, -⟩, -⟩ := Relation.TransGen.head'_iff.mp hrest
      obtain ⟨owner, howner, -⟩ := hnext.exists_get?
      obtain ⟨hmem, rfl⟩ := mem_of_get? howner
      simp only [if_neg hcontains, howner]
      rcases leadsOff_cons hrest with hrest | rfl
      · have hlt := countOf_unseen_lt hmem hunseen
        exact List.mem_cons_of_mem _ (ih (by omega) hrest)
      · rw [hnode, Option.some.injEq] at howner
        rw [howner]
        exact List.mem_cons_self

theorem leads_of_mem_ancestorsFrom {fuel : Nat} {seen : List String} {id : String} {node : Node}
    (h : node ∈ store.ancestorsFrom fuel seen id) :
    store.get? node.id = some node ∧ node.id ∉ seen ∧ Relation.TransGen store.Leads id node.id := by
  induction fuel generalizing seen id with
  | zero => cases h
  | succ fuel ih =>
    rw [ancestorsFrom] at h
    split at h
    · cases h
    · next parent hleads =>
      split at h
      · cases h
      · next hunseen =>
        cases howner : store.get? parent with
        | none => simp [howner] at h
        | some owner =>
          simp only [howner] at h
          obtain ⟨-, rfl⟩ := mem_of_get? howner
          rcases List.mem_cons.mp h with rfl | h
          · exact ⟨howner, by simpa using hunseen, .single hleads⟩
          · obtain ⟨hnode, hnotin, hrest⟩ := ih h
            exact ⟨hnode, fun hmem => hnotin (List.mem_cons_of_mem _ hmem), .head hleads hrest⟩

/-- **The ancestors of a node are the other nodes that steps to parents lead to.** -/
theorem mem_ancestors_iff {id : String} {node : Node} :
    node ∈ store.ancestors id ↔
      store.get? node.id = some node ∧ node.id ≠ id ∧ Relation.TransGen store.Leads id node.id := by
  constructor
  · intro h
    obtain ⟨hnode, hunseen, hleads⟩ := leads_of_mem_ancestorsFrom h
    exact ⟨hnode, by simpa using hunseen, hleads⟩
  · rintro ⟨hnode, hne, hleads⟩
    have hstep : store.Leads ≤ store.LeadsOff [] := fun _ _ h => ⟨h, List.not_mem_nil⟩
    rcases leadsOff_cons (Relation.TransGen.mono hstep _ _ hleads) with h | heq
    · exact mem_ancestorsFrom hnode (Nat.lt_succ_of_le (countOf_le_size _)) h
    · exact absurd heq hne

theorem isAncestor_iff {ancestor id : String} :
    store.isAncestor ancestor id = true ↔
      (store.get? ancestor).isSome = true ∧ ancestor ≠ id ∧
        Relation.TransGen store.Leads id ancestor := by
  rw [isAncestor, List.any_eq_true]
  constructor
  · rintro ⟨node, hnode, hid⟩
    obtain rfl := of_decide_eq_true hid
    obtain ⟨hget, hrest⟩ := mem_ancestors_iff.mp hnode
    exact ⟨by rw [hget]; rfl, hrest⟩
  · rintro ⟨hget, hrest⟩
    obtain ⟨node, hnode⟩ := Option.isSome_iff_exists.mp hget
    obtain ⟨-, rfl⟩ := mem_of_get? hnode
    exact ⟨node, mem_ancestors_iff.mpr ⟨hnode, hrest⟩, by simp⟩

/-- **A node is found in a cycle if and only if steps to parents lead from it back to it.** -/
theorem inCycle_iff {id : String} :
    store.inCycle id = true ↔ Relation.TransGen store.Leads id id := by
  unfold inCycle
  cases hparent : (store.get? id).bind (·.parent) with
  | none =>
    refine iff_of_false Bool.false_ne_true fun h => ?_
    obtain ⟨_, hstep, -⟩ := Relation.TransGen.head'_iff.mp h
    rw [Leads, hparent] at hstep
    cases hstep
  | some parent =>
    simp only [Bool.or_eq_true, decide_eq_true_eq, isAncestor_iff]
    constructor
    · rintro (rfl | ⟨-, -, hrest⟩)
      · exact .single hparent
      · exact .head hparent hrest
    · intro h
      obtain ⟨next, hstep, hrest⟩ := Relation.TransGen.head'_iff.mp h
      obtain rfl := Leads.unique hparent hstep
      obtain ⟨node, hnode, -⟩ := hstep.exists_get?
      rcases Relation.reflTransGen_iff_eq_or_transGen.mp hrest with rfl | hrest
      · exact .inl rfl
      · by_cases heq : parent = id
        · exact .inl heq
        · exact .inr ⟨by rw [hnode]; rfl, Ne.symm heq, hrest⟩

end Store
end Formulary
