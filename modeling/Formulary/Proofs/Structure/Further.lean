/-
# A further node

An edit that puts in a node puts it between two parts of the list. If the node is new and nobody's
parent, then nothing that the report says of the others is different: they have the same parents, and no
chain of parents comes to the new node (`Store.Gains.leads_iff`). So the report gains what is wrong with
the new node, in one place, and nothing else (`Store.Gains.exists_integrityIssues`).

Key definition: `Store.Gains`.
Key theorems: `Store.Gains.inCycle_eq`, `Store.Gains.inCycle_new`, `Store.Gains.exists_integrityIssues`.
-/
import Formulary.Proofs.Store.Siblings
import Formulary.Proofs.Structure.Codes

namespace Formulary
namespace Store

open Relation (TransGen ReflTransGen)

/-- Whether one store has a node more than another, behind the nodes `front` of the list. -/
structure Gains (store : Store) (new : Node) (front behind : List Node) (after : Store) : Prop where
  before : store.nodes = front ++ behind
  after : after.nodes = front ++ new :: behind
  fresh : new.id ∉ idsOf store.nodes

variable {store after : Store} {new node : Node} {front behind : List Node} {id other : String}

theorem Unused.ne_of_parent (h : store.Unused id) (hnode : node ∈ store.nodes)
    (hparent : node.parent = some other) : other ≠ id := by
  rintro rfl
  exact h.2 node hnode hparent

theorem Leads.mem_ids (h : store.Leads id other) : id ∈ idsOf store.nodes := by
  obtain ⟨node, hnode, -⟩ := h.exists_get?
  obtain ⟨hmem, rfl⟩ := mem_of_get? hnode
  exact List.mem_map_of_mem hmem

theorem Unused.ne_of_leads {new : String} (h : store.Unused new) (hleads : store.Leads id other) :
    other ≠ new := by
  obtain ⟨node, hnode, hparent⟩ := hleads.exists_get?
  exact h.ne_of_parent (mem_of_get? hnode).1 hparent

namespace Gains

section

variable (h : store.Gains new front behind after)

include h

theorem perm : after.nodes.Perm (new :: store.nodes) := by
  rw [h.before, h.after]
  exact List.perm_middle

theorem unique (hunique : (idsOf store.nodes).Nodup) : (idsOf after.nodes).Nodup := by
  rw [idsOf, (h.perm.map _).nodup_iff, List.map_cons]
  exact List.nodup_cons.mpr ⟨h.fresh, hunique⟩

theorem get?_eq (hid : id ≠ new.id) : after.get? id = store.get? id := by
  have hnew : ¬new.id = id := Ne.symm hid
  simp [get?, h.before, h.after, List.find?_append, hnew]

theorem get?_new : after.get? new.id = some new := by
  have hbefore : store.get? new.id = none := get?_eq_none_iff.mpr h.fresh
  rw [get?, h.before, List.find?_append, Option.or_eq_none_iff] at hbefore
  simp [get?, h.after, List.find?_append, hbefore.1]

/-- The other nodes lead to the parents that they led to. -/
theorem leads_eq (hid : id ≠ new.id) : after.Leads id other ↔ store.Leads id other := by
  rw [Leads, Leads, h.get?_eq hid]

end

section

variable (h : store.Gains new front behind after) (hunused : store.Unused new.id)

include h hunused

/-- No chain of parents from another node comes to the new one, so that all chains are those that there
were. -/
theorem leads_iff (hid : id ≠ new.id) :
    TransGen after.Leads id other ↔ TransGen store.Leads id other := by
  constructor
  · intro hchain
    have hboth : TransGen store.Leads id other ∧ other ≠ new.id := by
      induction hchain with
      | single hstep =>
        have hstep := (h.leads_eq hid).mp hstep
        exact ⟨.single hstep, hunused.ne_of_leads hstep⟩
      | tail _ hstep ih =>
        have hstep := (h.leads_eq ih.2).mp hstep
        exact ⟨ih.1.tail hstep, hunused.ne_of_leads hstep⟩
    exact hboth.1
  · refine TransGen.mono (fun a b hstep => (h.leads_eq ?_).mpr hstep) _ _
    rintro rfl
    exact h.fresh hstep.mem_ids

theorem inCycle_eq (hid : id ≠ new.id) : after.inCycle id = store.inCycle id := by
  rw [Bool.eq_iff_iff, inCycle_iff, inCycle_iff, h.leads_iff hunused hid]

/-- The new node is on no circle, unless it is its own parent. -/
theorem inCycle_new (hparent : new.parent ≠ some new.id) : after.inCycle new.id = false := by
  rw [Bool.eq_false_iff]
  intro hcycle
  obtain ⟨parent, hstep, hrest⟩ := TransGen.head'_iff.mp (inCycle_iff.mp hcycle)
  rw [Leads, h.get?_new] at hstep
  have hne : parent ≠ new.id := by
    rintro rfl
    exact hparent hstep
  rcases Relation.reflTransGen_iff_eq_or_transGen.mp hrest with heq | hrest
  · exact hne heq.symm
  · obtain ⟨_, -, hlast⟩ := TransGen.tail'_iff.mp ((h.leads_iff hunused hne).mp hrest)
    exact hunused.ne_of_leads hlast rfl

theorem parentIssues_eq (hnode : node ∈ store.nodes) :
    after.parentIssues node = store.parentIssues node := by
  have hid : node.id ≠ new.id := fun heq => h.fresh (heq ▸ List.mem_map_of_mem hnode)
  unfold parentIssues
  cases hparent : node.parent with
  | none => rfl
  | some id =>
    dsimp only
    rw [h.get?_eq (hunused.ne_of_parent hnode hparent), h.inCycle_eq hunused hid]

theorem argumentIssues_eq (hnode : node ∈ store.nodes) :
    after.argumentIssues node = store.argumentIssues node := by
  have howner : after.hasFunctionParent node = store.hasFunctionParent node := by
    unfold hasFunctionParent
    cases hparent : node.parent with
    | none => rfl
    | some id =>
      dsimp only
      rw [h.get?_eq (hunused.ne_of_parent hnode hparent)]
  rw [argumentIssues, argumentIssues, howner]

/-- **The report gains what is wrong with the new node**, and what it says of the other nodes stays. -/
theorem exists_integrityIssues (hunique : (idsOf store.nodes).Nodup) (catalog : Option Catalog) :
    ∃ first rest, store.integrityIssues catalog = first ++ rest ∧
      after.integrityIssues catalog = first ++ after.nodeIssues catalog new ++ rest := by
  have hnodes : ∀ nodes ⊆ store.nodes,
      nodes.flatMap (after.nodeIssues catalog) = nodes.flatMap (store.nodeIssues catalog) := by
    intro nodes hsub
    refine List.flatMap_congr fun node hnode => ?_
    rw [nodeIssues, nodeIssues, h.parentIssues_eq hunused (hsub hnode),
      h.argumentIssues_eq hunused (hsub hnode)]
  have hfront := hnodes front (by simp [h.before])
  have hbehind := hnodes behind (by simp [h.before])
  refine ⟨front.flatMap (store.nodeIssues catalog), behind.flatMap (store.nodeIssues catalog), ?_, ?_⟩
  · rw [integrityIssues_eq_flatMap hunique, h.before, List.flatMap_append]
  · rw [integrityIssues_eq_flatMap (h.unique hunique), h.after, List.flatMap_append, List.flatMap_cons,
      hfront, hbehind, List.append_assoc]

end

end Gains
end Store
end Formulary
