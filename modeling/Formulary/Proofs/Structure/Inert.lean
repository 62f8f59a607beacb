/-
# Nodes that no root leads to are inert

Text and types are read from the forest, so that nodes that are not rooted count for nothing: without
them a store has the same text, the same type and the same findings, and their own types are unknown.
Deleting a node leaves its children without a parent, and they and all below them are no longer rooted;
for text and types that is as good as taking out all that is below the node. Only the structure report
tells the difference: it has an orphan for each child (`Store.inert_of_not_rooted`).

Key definitions: `Store.rooted`, `Store.ReadsLike`, `Store.orphan?`.
Key theorems: `Store.orphans_structureReport`, `Store.inert_of_not_rooted`.
-/
import Formulary.Canonical
import Formulary.Store.Edit
import Formulary.Proofs.Store.Rooted
import Formulary.Proofs.Structure.Codes

namespace Formulary
namespace Store

open Formulary.Tree

variable {store other : Store} {node : Node}

/-! ### What is read of a store -/

/-- The store without the nodes that are not rooted. -/
def rooted (store : Store) : Store :=
  ⟨store.nodes.filter store.isRooted⟩

/-- Whether two stores have the same text, the same type and the same findings of inference. -/
structure ReadsLike (store other : Store) : Prop where
  canonical : ∀ catalog placeholder,
    store.canonical catalog placeholder = other.canonical catalog placeholder
  type : ∀ catalog, (store.inferTypes catalog).type = (other.inferTypes catalog).type
  issues : ∀ catalog, (store.inferTypes catalog).issues = (other.inferTypes catalog).issues

theorem readsLike_of_forest (h : store.forest = other.forest) : store.ReadsLike other where
  canonical catalog placeholder := by rw [Store.canonical, Store.canonical, h]
  type catalog := by rw [inferTypes, inferTypes, h]
  issues catalog := by rw [inferTypes, inferTypes, h]

theorem readsLike_rooted (hunique : (idsOf store.nodes).Nodup) : store.rooted.ReadsLike store :=
  readsLike_of_forest <| forest_filter hunique fun _ above h =>
    (isRooted_iff hunique h.mem).mpr ⟨above, h⟩

/-- **A node that is not rooted has an unknown type.** -/
theorem lookup_types_of_not_rooted (hunique : (idsOf store.nodes).Nodup) (hnode : node ∈ store.nodes)
    (hrooted : node ∉ store.rooted.nodes) (catalog : Catalog) :
    (store.inferTypes catalog).types.lookup node.id = some .unknown := by
  have hfresh : node.id ∉ keysOf (inferSequence catalog store.forest).records := by
    intro hmem
    obtain ⟨n, hn, hid⟩ := List.mem_map.mp (keys_sequence_subset catalog store.forest hmem)
    obtain ⟨above, h⟩ := climbs_of_mem_preorder hn
    obtain rfl := List.inj_on_of_nodup_map hunique h.mem hnode hid
    exact hrooted (List.mem_filter.mpr ⟨hnode, (isRooted_iff hunique hnode).mpr ⟨above, h⟩⟩)
  rw [lookup_inferTypes_eq catalog (List.mem_map_of_mem hnode), lastRecord?_eq_none hfresh]
  rfl

/-! ### Orphans -/

/-- What the structure report says about the parent of a node if it is missing. -/
def orphan? (store : Store) (node : Node) : Option Issue :=
  match node.parent with
  | none => none
  | some id => if store.contains id then none else some (.orphan node.id id)

theorem contains_eq_isSome_get? (id : String) : store.contains id = (store.get? id).isSome := by
  rw [Bool.eq_iff_iff, contains, get?, List.find?_isSome, List.any_eq_true]

theorem orphans_parentIssues (node : Node) :
    (store.parentIssues node).filter (·.code = "orphan_node") = (store.orphan? node).toList := by
  unfold parentIssues orphan?
  cases node.parent with
  | none => rfl
  | some id =>
    simp only [contains_eq_isSome_get?]
    cases store.get? id with
    | none => rfl
    | some owner =>
      rw [Option.isSome_some, if_pos rfl]
      dsimp only
      split_ifs <;> rfl

/-- **The orphans of the structure report are those of the nodes, in the order of the list.** -/
theorem orphans_structureReport (store : Store) (catalog : Option Catalog) :
    (store.structureReport catalog).issues.filter (·.code = "orphan_node") =
      store.nodes.filterMap store.orphan? := by
  have hduplicate : store.duplicateIds.filter (·.code = "orphan_node") = [] :=
    filter_code_eq_nil fun issue h => by rw [code_of_mem_duplicateIds h]; decide
  have hsequence : (checkSequence store.roots).filter (·.code = "orphan_node") = [] := by
    refine filter_code_eq_nil fun issue h hcode => ?_
    have hmem := code_of_mem_checkSequence h
    rw [hcode] at hmem
    exact absurd hmem (by decide)
  have hfunctions : ((store.nodes.filter (·.kind = .function)).flatMap store.functionIssues).filter
      (·.code = "orphan_node") = [] := by
    refine filter_code_eq_nil fun issue h hcode => ?_
    obtain ⟨node, -, h⟩ := List.mem_flatMap.mp h
    have hmem := code_of_mem_functionIssues h
    rw [hcode] at hmem
    exact absurd hmem (by decide)
  have hnode : ∀ node, (store.parentIssues node ++ store.argumentIssues node ++ operatorIssues node ++
      referenceIssues catalog node).filter (·.code = "orphan_node") = (store.orphan? node).toList := by
    intro node
    have harguments : (store.argumentIssues node).filter (·.code = "orphan_node") = [] :=
      filter_code_eq_nil fun issue h => by rw [code_of_mem_argumentIssues h]; decide
    have hoperators : (operatorIssues node).filter (·.code = "orphan_node") = [] :=
      filter_code_eq_nil fun issue h => by rw [code_of_mem_operatorIssues h]; decide
    have hreferences : (referenceIssues catalog node).filter (·.code = "orphan_node") = [] :=
      filter_code_eq_nil fun issue h => by rw [code_of_mem_referenceIssues h]; decide
    rw [List.filter_append, List.filter_append, List.filter_append, orphans_parentIssues, harguments,
      hoperators, hreferences, List.append_nil, List.append_nil, List.append_nil]
  rw [structureReport, integrityIssues, List.filter_append, List.filter_append, List.filter_append,
    hduplicate, hsequence, hfunctions, List.filter_flatMap, List.nil_append, List.append_nil,
    List.append_nil, List.filterMap_eq_flatMap_toList]
  exact List.flatMap_congr fun node _ => hnode node

/-! ### Deleting a node -/

theorem eraseP_eq_filter {nodes : List Node} {id : String} (h : (idsOf nodes).Nodup) :
    nodes.eraseP (·.id = id) = nodes.filter (·.id ≠ id) := by
  induction nodes with
  | nil => rfl
  | cons node rest ih =>
    obtain ⟨hfresh, hrest⟩ := List.nodup_cons.mp h
    by_cases hid : node.id = id
    · rw [List.eraseP_cons_of_pos (by simpa using hid), List.filter_cons_of_neg (by simpa using hid)]
      refine (List.filter_eq_self.mpr fun n hn => ?_).symm
      have hne : n.id ≠ id := fun heq => hfresh (List.mem_map.mpr ⟨n, hn, heq.trans hid.symm⟩)
      simpa using hne
    · rw [List.eraseP_cons_of_neg (by simpa using hid), List.filter_cons_of_pos (by simpa using hid),
        ih hrest]

theorem Climbs.mono (hsub : store.nodes ⊆ other.nodes) : ∀ {node : Node} {above : List Node},
    store.Climbs node above → other.Climbs node above
  | _, [], h => ⟨hsub h.1, h.2⟩
  | _, _ :: _, h => ⟨hsub h.1, h.2.1, h.2.2.mono hsub⟩

theorem pruned_singleton (id : String) :
    store.pruned [id] = (store.nodes.filter (·.id ≠ id)).filter fun n => !store.isAncestor id n.id := by
  rw [pruned, List.filter_filter]
  refine List.filter_congr fun n _ => ?_
  by_cases hid : n.id = id <;> simp [hid]

/-- Nothing that is read is below a node that was taken out. -/
theorem readsLike_pruned (hunique : (idsOf store.nodes).Nodup) (id : String) :
    (Store.mk (store.nodes.filter (·.id ≠ id))).ReadsLike ⟨store.pruned [id]⟩ := by
  have hfiltered : (idsOf (store.nodes.filter (·.id ≠ id))).Nodup :=
    hunique.sublist (List.filter_sublist.map _)
  rw [pruned_singleton]
  refine readsLike_of_forest (forest_filter hfiltered fun n above h => ?_).symm
  have habove : store.ancestors n.id = above :=
    ancestors_of_climbs hunique (h.mono (List.filter_subset_self _))
  rw [isAncestor, habove, Bool.not_eq_true', List.any_eq_false]
  exact fun owner howner => by simpa using (List.mem_filter.mp (h.subset howner)).2

theorem contains_filter (id parent : String) :
    (Store.mk (store.nodes.filter (·.id ≠ id))).contains parent =
      (store.contains parent && parent ≠ id) := by
  rw [Bool.eq_iff_iff]
  simp only [contains, List.any_eq_true, List.mem_filter, decide_eq_true_eq, Bool.and_eq_true]
  constructor
  · rintro ⟨node, ⟨hnode, hid⟩, rfl⟩
    exact ⟨⟨node, hnode, rfl⟩, hid⟩
  · rintro ⟨⟨node, hnode, rfl⟩, hid⟩
    exact ⟨node, ⟨hnode, hid⟩, rfl⟩

/-- The orphans that deleting a node makes are its children. -/
theorem orphans_delete {catalog : Option Catalog} (id : String)
    (h : ∀ issue ∈ (store.structureReport catalog).issues, issue.code ≠ "orphan_node") :
    ((Store.mk (store.nodes.filter (·.id ≠ id))).structureReport catalog).issues.filter
        (·.code = "orphan_node") =
      ((store.childrenOf id).filter (·.id ≠ id)).map fun child => .orphan child.id id := by
  have hparents : ∀ node ∈ store.nodes, store.orphan? node = none := by
    have hnone := filter_code_eq_nil h
    rw [orphans_structureReport] at hnone
    exact List.filterMap_eq_nil_iff.mp hnone
  -- Of the parents that were there only the deleted node is missing.
  have horphan : ∀ node ∈ store.nodes.filter (·.id ≠ id),
      (Store.mk (store.nodes.filter (·.id ≠ id))).orphan? node =
        if node.parent = some id then some (.orphan node.id id) else none := by
    intro node hnode
    have hbefore := hparents node (List.mem_filter.mp hnode).1
    unfold orphan? at hbefore ⊢
    cases hparent : node.parent with
    | none => rfl
    | some parent =>
      have hcontains : store.contains parent = true := by simpa [hparent] using hbefore
      dsimp only
      rw [contains_filter, hcontains]
      by_cases hid : parent = id <;> simp [hid]
  rw [orphans_structureReport, List.filterMap_congr horphan, childrenOf, List.filter_comm,
    ← List.filterMap_eq_map]
  generalize store.nodes.filter (·.id ≠ id) = nodes
  rw [List.filterMap_filter]
  exact List.filterMap_congr fun node _ => by simp only [decide_eq_true_eq, Function.comp_apply]

/-- **Nodes that no root leads to are inert.** Without them the text, the type and the findings of a
store are what they were, and their own types are unknown. So deleting a node is for text, type and
findings as good as taking out all that is below it; and where no parent was missing before, the orphans
that the structure report has afterwards are the former children of the node. -/
theorem inert_of_not_rooted (store : Store) (hunique : (idsOf store.nodes).Nodup) :
    store.rooted.ReadsLike store ∧
      (∀ catalog, ∀ node ∈ store.nodes, node ∉ store.rooted.nodes →
        (store.inferTypes catalog).types.lookup node.id = some .unknown) ∧
      ∀ node ∈ store.nodes, ∃ after, store.delete node.id = .ok (node, after) ∧
        after.ReadsLike ⟨store.pruned [node.id]⟩ ∧
          ∀ catalog, (∀ issue ∈ (store.structureReport catalog).issues,
              issue.code ≠ "orphan_node") →
            (after.structureReport catalog).issues.filter (·.code = "orphan_node") =
              ((store.childrenOf node.id).filter (·.id ≠ node.id)).map fun child =>
                .orphan child.id node.id := by
  refine ⟨readsLike_rooted hunique, fun catalog node hnode hrooted =>
    lookup_types_of_not_rooted hunique hnode hrooted catalog, fun node hnode => ?_⟩
  have hdelete : store.delete node.id = .ok (node, ⟨store.nodes.filter (·.id ≠ node.id)⟩) := by
    rw [delete, require, get?_of_unique hunique hnode, ← eraseP_eq_filter hunique]
    rfl
  exact ⟨_, hdelete, readsLike_pruned hunique node.id, fun catalog h => orphans_delete node.id h⟩

/-- A group with a value, next to two groups that are parents of each other. -/
def circling : Store :=
  ⟨[.ofGroup "g" none none, .ofGroup "a" (some "b") none, .ofValue "v" (some "g") (some (.integer 1)),
    .ofGroup "b" (some "a") none]⟩

theorem inert_circling :
    (idsOf circling.nodes).Nodup ∧ circling.rooted.ReadsLike circling ∧
      (circling.inferTypes []).types.lookup "a" = some .unknown ∧
        ∃ after, circling.delete "g" = .ok (.ofGroup "g" none none, after) ∧
          after.ReadsLike ⟨circling.pruned ["g"]⟩ ∧
            (after.structureReport none).issues.filter (·.code = "orphan_node") =
              [.orphan "v" "g"] := by
  have hunique : (idsOf circling.nodes).Nodup := by decide
  obtain ⟨hreads, htypes, hdelete⟩ := inert_of_not_rooted circling hunique
  obtain ⟨after, hafter, hpruned, horphans⟩ := hdelete (.ofGroup "g" none none) List.mem_cons_self
  refine ⟨hunique, hreads, htypes [] (.ofGroup "a" (some "b") none) ?_ ?_, after, hafter, hpruned,
    horphans none ?_⟩
  · exact List.mem_cons_of_mem _ List.mem_cons_self
  · decide
  · decide

end Store
end Formulary
