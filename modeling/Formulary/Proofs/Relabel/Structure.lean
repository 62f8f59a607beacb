/-
# Stores under other identifiers

A map of nodes that renames the identifiers in a store without making two of them one commutes with all
that is read off a store, from the lookup of a node up to its ancestors and its forest. The structure
report of the images is therefore the report with the identifiers renamed (`Store.structureReport_map`),
and the text is the same if the map leaves the numbers as they are (`Store.canonical_map`). Only the empty
identifier may not come in or get lost, since the check of argument groups takes it for none.

Key definitions: `Store.labels`, `Store.map`, `Tree.map`.
Key theorems: `Store.structureReport_map`, `Store.forest_map`, `Store.canonical_map`.
-/
import Mathlib.Data.List.Find
import Formulary.Canonical
import Formulary.Proofs.Relabel.Basic
import Formulary.Proofs.Store.Ancestors

namespace Formulary

/-! ### Stores -/

namespace Store

/-- The identifiers in a store, those of the parents included. -/
def labels (store : Store) : Set String :=
  {id | ∃ node ∈ store.nodes, node.id = id ∨ node.parent = some id}

/-- The store of the images of the nodes. -/
def map (store : Store) (f : Node → Node) : Store :=
  ⟨store.nodes.map f⟩

variable {store : Store} {node : Node}

theorem id_mem_labels (hnode : node ∈ store.nodes) : node.id ∈ store.labels :=
  ⟨node, hnode, .inl rfl⟩

theorem parent_mem_labels (hnode : node ∈ store.nodes) {id : String} (hid : node.parent = some id) :
    id ∈ store.labels :=
  ⟨node, hnode, .inr hid⟩

theorem mem_labels_of_mem_ids {id : String} (hid : id ∈ store.nodes.map (·.id)) :
    id ∈ store.labels := by
  obtain ⟨node, hnode, rfl⟩ := List.mem_map.mp hid
  exact id_mem_labels hnode

variable {r : String → String} {f : Node → Node} (h : Relabels r f) (hr : Set.InjOn r store.labels)

include h

theorem roots_map : (store.map f).roots = store.roots.map f := by
  simp only [roots, map, List.filter_map, Function.comp_def, h.parent, Option.isNone_map]

include hr

theorem get?_map {id : String} (hid : id ∈ store.labels) :
    (store.map f).get? (r id) = (store.get? id).map f := by
  rw [get?, get?, map, List.find?_map]
  refine congrArg _ (List.find?_congr fun node hnode => ?_)
  have heq := hr.eq_iff (id_mem_labels hnode) hid
  simp [h.id, heq]

theorem childrenOf_map {id : String} (hid : id ∈ store.labels) :
    (store.map f).childrenOf (r id) = (store.childrenOf id).map f := by
  rw [childrenOf, childrenOf, map, List.filter_map]
  refine congrArg _ (List.filter_congr fun node hnode => ?_)
  rw [Function.comp_apply, h.parent]
  cases hparent : node.parent with
  | none => rfl
  | some parent =>
    have heq := hr.eq_iff (parent_mem_labels hnode hparent) hid
    simp [heq]

theorem argumentsOf_map {id : String} (hid : id ∈ store.labels) :
    (store.map f).argumentsOf (r id) = (store.argumentsOf id).map f := by
  have hargument : ((fun node : Node => node.isArgument) ∘ f) = fun node => node.isArgument :=
    funext h.isArgument
  rw [argumentsOf, childrenOf_map h hr hid, List.filter_map, hargument]
  exact sortBy_map (fun a b => by rw [h.slot, h.slot]) _

theorem parent_get?_map {id : String} (hid : id ∈ store.labels) :
    ((store.map f).get? (r id)).bind (·.parent) = ((store.get? id).bind (·.parent)).map r := by
  rw [get?_map h hr hid]
  cases store.get? id with
  | none => rfl
  | some node => exact h.parent node

theorem ancestorsFrom_map : ∀ {fuel : Nat} {seen : List String} {id : String},
    id ∈ store.labels → (∀ other ∈ seen, other ∈ store.labels) →
    (store.map f).ancestorsFrom fuel (seen.map r) (r id) = (store.ancestorsFrom fuel seen id).map f
  | 0, _, _, _, _ => rfl
  | fuel + 1, seen, id, hid, hseen => by
    rw [ancestorsFrom, ancestorsFrom, parent_get?_map h hr hid]
    cases hparent : (store.get? id).bind (·.parent) with
    | none => rfl
    | some parent =>
      obtain ⟨node, hnode, hnodeParent⟩ := Option.bind_eq_some_iff.mp hparent
      have hlabel := parent_mem_labels (mem_of_get? hnode).1 hnodeParent
      have hseen' : ∀ other ∈ parent :: seen, other ∈ store.labels :=
        List.forall_mem_cons.mpr ⟨hlabel, hseen⟩
      have ih : (store.map f).ancestorsFrom fuel (r parent :: seen.map r) (r parent) =
          (store.ancestorsFrom fuel (parent :: seen) parent).map f := ancestorsFrom_map hlabel hseen'
      simp only [Option.map_some, contains_map hr hlabel hseen, get?_map h hr hlabel, ih]
      split
      · rfl
      · cases store.get? parent <;> rfl

theorem isAncestor_map {ancestor id : String} (hancestor : ancestor ∈ store.labels)
    (hid : id ∈ store.labels) :
    (store.map f).isAncestor (r ancestor) (r id) = store.isAncestor ancestor id := by
  have hsize : (store.map f).size = store.size := List.length_map _
  have hseen : ∀ other ∈ [id], other ∈ store.labels := List.forall_mem_singleton.mpr hid
  have hmap : (store.map f).ancestorsFrom (store.size + 1) [r id] (r id) =
      (store.ancestorsFrom (store.size + 1) [id] id).map f := ancestorsFrom_map h hr hid hseen
  rw [isAncestor, isAncestor, ancestors, ancestors, hsize, hmap, List.any_map, Bool.eq_iff_iff,
    List.any_eq_true, List.any_eq_true]
  refine exists_congr fun node => and_congr_right fun hnode => ?_
  have hmem := (mem_of_get? (leads_of_mem_ancestorsFrom hnode).1).1
  simp [h.id, hr.eq_iff (id_mem_labels hmem) hancestor]

theorem inCycle_map {id : String} (hid : id ∈ store.labels) :
    (store.map f).inCycle (r id) = store.inCycle id := by
  rw [inCycle, inCycle, parent_get?_map h hr hid]
  cases hparent : (store.get? id).bind (·.parent) with
  | none => rfl
  | some parent =>
    obtain ⟨node, hnode, hnodeParent⟩ := Option.bind_eq_some_iff.mp hparent
    have hlabel := parent_mem_labels (mem_of_get? hnode).1 hnodeParent
    have heq := hr.eq_iff hlabel hid
    simp only [Option.map_some, isAncestor_map h hr hid hlabel, heq]

/-! ### The structure report -/

/-- The identifiers of the nodes, without repetition, are renamed one by one. -/
theorem eraseDups_ids_map : ((store.map f).nodes.map (·.id)).eraseDups =
    (store.nodes.map (·.id)).eraseDups.map r := by
  have hids : (store.map f).nodes.map (·.id) = (store.nodes.map (·.id)).map r := by
    rw [map, List.map_map, List.map_map]
    exact List.map_congr_left fun node _ => h.id node
  rw [hids, eraseDups_map hr fun _ => mem_labels_of_mem_ids]

theorem duplicateIds_map :
    (store.map f).duplicateIds = store.duplicateIds.map (Issue.relabel r) := by
  rw [duplicateIds, duplicateIds, eraseDups_ids_map h hr, List.filterMap_map, List.map_filterMap]
  refine List.filterMap_congr fun id hid => ?_
  have hid := mem_labels_of_mem_ids (List.mem_eraseDups.mp hid)
  have hcount : (store.map f).nodes.countP (·.id = r id) = store.nodes.countP (·.id = id) := by
    rw [map, List.countP_map]
    refine List.countP_congr fun node hnode => ?_
    have heq := hr.eq_iff (id_mem_labels hnode) hid
    simp [h.id, heq]
  simp only [Function.comp_apply, hcount]
  split <;> rfl

theorem parentIssues_map (hnode : node ∈ store.nodes) :
    (store.map f).parentIssues (f node) = (store.parentIssues node).map (Issue.relabel r) := by
  rw [parentIssues, parentIssues, h.parent]
  cases hparent : node.parent with
  | none => rfl
  | some id =>
    simp only [Option.map_some, get?_map h hr (parent_mem_labels hnode hparent), h.id,
      inCycle_map h hr (id_mem_labels hnode)]
    cases store.get? id with
    | none => rfl
    | some parent =>
      simp only [Option.map_some, h.kind, h.id, h.function, h.isArgument]
      split_ifs <;> rfl

theorem hasFunctionParent_map (hempty : ∀ n ∈ store.nodes, r n.id = "" ↔ n.id = "")
    (hnode : node ∈ store.nodes) :
    (store.map f).hasFunctionParent (f node) = store.hasFunctionParent node := by
  rw [hasFunctionParent, hasFunctionParent, h.parent]
  cases hparent : node.parent with
  | none => rfl
  | some id =>
    simp only [Option.map_some, get?_map h hr (parent_mem_labels hnode hparent), Option.map_map,
      Function.comp_def, h.kind]
    cases howner : store.get? id with
    | none => simp
    | some owner =>
      obtain ⟨hmem, rfl⟩ := mem_of_get? howner
      have heq := hempty owner hmem
      simp [heq]

theorem integrityIssues_map (hempty : ∀ n ∈ store.nodes, r n.id = "" ↔ n.id = "")
    (catalog : Option Catalog) :
    (store.map f).integrityIssues catalog = (store.integrityIssues catalog).map (Issue.relabel r) := by
  rw [integrityIssues, integrityIssues, duplicateIds_map h hr, List.map_append, List.map_flatMap,
    map, List.flatMap_map]
  refine congrArg _ (List.flatMap_congr fun node hnode => ?_)
  have hparent := parentIssues_map h hr hnode
  have harguments : (store.map f).argumentIssues (f node) =
      (store.argumentIssues node).map (Issue.relabel r) := by
    rw [argumentIssues, argumentIssues, hasFunctionParent_map h hr hempty hnode, h.isArgument, h.id]
    split <;> rfl
  have hoperator : operatorIssues (f node) = (operatorIssues node).map (Issue.relabel r) := by
    rw [operatorIssues, operatorIssues, h.kind, h.operator, h.id]
    split <;> rfl
  have hreference : referenceIssues catalog (f node) =
      (referenceIssues catalog node).map (Issue.relabel r) := by
    rw [referenceIssues, referenceIssues, h.kind, h.reference, h.id]
    split_ifs
    · cases node.reference with
      | none => rfl
      | some id =>
        dsimp only
        split_ifs <;> rfl
    · rfl
  rw [map] at hparent harguments
  rw [hparent, harguments, hoperator, hreference, List.map_append, List.map_append, List.map_append]

omit h hr in
theorem slotIssues_relabel (signature : Signature) (id : String) (slots : List Int) :
    slotIssues signature (r id) slots = (slotIssues signature id slots).map (Issue.relabel r) := by
  unfold slotIssues
  rw [List.map_append, List.map_map]
  refine congrArg _ ?_
  cases signature.arity with
  | variadic =>
    dsimp only
    split <;> rfl
  | exactly count =>
    dsimp only
    rw [List.map_append, List.map_map]
    refine congrArg₂ _ ?_ rfl
    split <;> rfl

theorem functionIssues_map (hnode : node ∈ store.nodes) :
    (store.map f).functionIssues (f node) = (store.functionIssues node).map (Issue.relabel r) := by
  have hslots : (store.map f).slotsOf (r node.id) = store.slotsOf node.id := by
    rw [slotsOf, slotsOf, argumentsOf_map h hr (id_mem_labels hnode), List.map_map]
    exact List.map_congr_left fun child _ => congrArg (·.getD 0) (h.slot child)
  rw [functionIssues, functionIssues, h.function, h.id]
  cases node.function.bind Signature.find? with
  | none => rfl
  | some signature =>
    dsimp only
    rw [hslots, slotIssues_relabel]

/-- **Other identifiers are other identifiers in the structure report.** -/
theorem structureReport_map (hempty : ∀ n ∈ store.nodes, r n.id = "" ↔ n.id = "")
    (catalog : Option Catalog) :
    (store.map f).structureReport catalog =
      ⟨(store.structureReport catalog).issues.map (Issue.relabel r),
        (store.structureReport catalog).broken.map (BrokenConnection.relabel r)⟩ := by
  have hkind : ((fun node : Node => decide (node.kind = .function)) ∘ f) =
      fun node => decide (node.kind = .function) := by
    funext node
    rw [Function.comp_apply, h.kind]
  have hfunctions : ((store.map f).nodes.filter (·.kind = .function)).flatMap
      (store.map f).functionIssues =
      ((store.nodes.filter (·.kind = .function)).flatMap store.functionIssues).map
        (Issue.relabel r) := by
    rw [map, List.filter_map, hkind, List.flatMap_map, List.map_flatMap]
    exact List.flatMap_congr fun node hnode =>
      functionIssues_map h hr (List.mem_filter.mp hnode).1
  rw [structureReport, structureReport, integrityIssues_map h hr hempty, roots_map h,
    checkSequence_map h, brokenConnections_map h, hfunctions, List.map_append, List.map_append]

end Store

/-! ### Trees -/

namespace Tree

mutual

/-- The tree of the images of the nodes. -/
def map (f : Node → Node) : Tree → Tree
  | mk node children => mk (f node) (mapAll f children)

/-- The trees of the images of the nodes. -/
def mapAll (f : Node → Node) : List Tree → List Tree
  | [] => []
  | tree :: rest => tree.map f :: mapAll f rest

end

theorem mapAll_eq_map (f : Node → Node) (ts : List Tree) : mapAll f ts = ts.map (map f) := by
  induction ts with
  | nil => rfl
  | cons t rest ih => rw [mapAll, ih, List.map_cons]

@[simp] theorem node_map (f : Node → Node) (t : Tree) : (t.map f).node = f t.node := by
  obtain ⟨node, children⟩ := t
  rfl

theorem map_node_mapAll (f : Node → Node) (ts : List Tree) :
    (mapAll f ts).map node = (ts.map node).map f := by
  rw [mapAll_eq_map, List.map_map, List.map_map]
  exact List.map_congr_left fun t _ => node_map f t

end Tree

namespace Store

variable {store : Store} {r : String → String} {f : Node → Node} (h : Relabels r f)
  (hr : Set.InjOn r store.labels)

include h hr

theorem tree_map : ∀ {depth : Nat} {node : Node}, node ∈ store.nodes →
    (store.map f).tree depth (f node) = (store.tree depth node).map f
  | 0, _, _ => rfl
  | depth + 1, node, hnode => by
    have hbelow : (store.map f).below (f node) = (store.below node).map f := by
      have hid := id_mem_labels hnode
      rw [below, below, h.kind, h.id, childrenOf_map h hr hid, argumentsOf_map h hr hid]
      cases node.kind <;> rfl
    rw [tree, tree, hbelow, Tree.map, Tree.mapAll_eq_map, List.map_map, List.map_map]
    refine congrArg (Tree.mk (f node)) (List.map_congr_left fun child hchild => ?_)
    exact tree_map (mem_childrenOf.mp (mem_childrenOf_of_mem_below hchild)).1

theorem forest_map : (store.map f).forest = Tree.mapAll f store.forest := by
  have hsize : (store.map f).size = store.size := List.length_map _
  rw [forest, forest, roots_map h, hsize, Tree.mapAll_eq_map, List.map_map, List.map_map]
  exact List.map_congr_left fun root hroot => tree_map h hr (mem_nodes_of_mem_roots hroot)

end Store

/-! ### The text -/

namespace Tree

variable {r : String → String} {f : Node → Node} (catalog : Catalog) (placeholder : String)

mutual

theorem text_map (h : Relabels r f) (hvalue : ∀ node, (f node).value = node.value) : ∀ t : Tree,
    (t.map f).text catalog placeholder = t.text catalog placeholder
  | mk node children => by
    rw [map, text, text, h.kind, h.reference, h.operator, h.function, hvalue,
      argumentTexts_map h hvalue 0 children, parts_map h hvalue children]

theorem parts_map (h : Relabels r f) (hvalue : ∀ node, (f node).value = node.value) :
    ∀ ts : List Tree, parts catalog placeholder (mapAll f ts) = parts catalog placeholder ts
  | [] => rfl
  | t :: rest => by
    rw [mapAll, parts, parts, node_map, h.isArgument, text_map h hvalue t, parts_map h hvalue rest]

theorem argumentTexts_map (h : Relabels r f) (hvalue : ∀ node, (f node).value = node.value)
    (slot : Int) : ∀ ts : List Tree,
    argumentTexts catalog placeholder slot (mapAll f ts) = argumentTexts catalog placeholder slot ts
  | [] => rfl
  | mk node children :: rest => by
    rw [mapAll, map, argumentTexts, argumentTexts, h.slot, parts_map h hvalue children,
      argumentTexts_map h hvalue slot rest, argumentTexts_map h hvalue (node.slot.getD 0 + 1) rest]

end

end Tree

/-- **Other identifiers leave the text as it is**, if the numbers stay what they are. -/
theorem Store.canonical_map {store : Store} {r : String → String} {f : Node → Node}
    (h : Relabels r f) (hvalue : ∀ node, (f node).value = node.value)
    (hr : Set.InjOn r store.labels) (catalog : Catalog) (placeholder : String) :
    (store.map f).canonical catalog placeholder = store.canonical catalog placeholder := by
  rw [canonical, canonical, forest_map h hr, Tree.sequenceText, Tree.sequenceText,
    Tree.parts_map catalog placeholder h hvalue]

end Formulary
