/-
# Rebuilt arguments

When a node is made a call of a function with a fixed number of arguments, its argument groups go with all
that is below them, and as many empty groups come in at the end of the list. What goes is found by a walk
up the parents of every node. The walk is made when the node is a call already, but parents and identifiers
are what they were, so that it finds what stands below the former groups, and nothing else
(`Store.mem_pruned_iff`). The node itself stays unless it is below one of its own groups. A function of any
number of arguments, and a name of no function, change the node and nothing else.

Key definitions: `KeepsLinks`, `Store.Rebuilds`.
Key theorems: `KeepsLinks.pruned_map`, `Store.mem_pruned_iff`, `Store.setFunction_of_exactly`,
`Store.rebuilds_of_setFunction`.
-/
import Formulary.Proofs.Store.Calls
import Formulary.Proofs.Store.Edits

namespace Formulary

/-- Whether a map of nodes keeps identifiers and parents. -/
structure KeepsLinks (f : Node → Node) : Prop where
  id : ∀ node, (f node).id = node.id
  parent : ∀ node, (f node).parent = node.parent

namespace Edit

theorem revise_setFunction_self (node : Node) (name : Option String) :
    (setFunction node.id name).revise node = node.recast name :=
  if_pos rfl

theorem revise_setFunction_of_ne {id : String} {node : Node} (h : node.id ≠ id) (name : Option String) :
    (setFunction id name).revise node = node :=
  if_neg (Ne.symm h)

theorem keepsLinks_setFunction (id : String) (name : Option String) :
    KeepsLinks fun node => (setFunction id name).revise node where
  id node := revise_id _ node
  parent node := by
    by_cases hid : node.id = id
    · rw [← hid, revise_setFunction_self]
      rfl
    · rw [revise_setFunction_of_ne hid]

end Edit

namespace KeepsLinks

variable {f : Node → Node} (h : KeepsLinks f) (store : Store)

include h

theorem get?_map (id : String) : (Store.mk (store.nodes.map f)).get? id = (store.get? id).map f := by
  rw [Store.get?, Store.get?, List.find?_map]
  simp only [Function.comp_def, h.id]

theorem leads_map : (Store.mk (store.nodes.map f)).Leads = store.Leads := by
  funext id parent
  have hparent : (fun node => (f node).parent) = (·.parent) := funext h.parent
  rw [Store.Leads, Store.Leads, h.get?_map, Option.bind_map]
  simp only [Function.comp_def, hparent]

theorem isAncestor_map (ancestor id : String) :
    (Store.mk (store.nodes.map f)).isAncestor ancestor id = store.isAncestor ancestor id := by
  rw [Bool.eq_iff_iff, Store.isAncestor_iff, Store.isAncestor_iff, h.leads_map, h.get?_map,
    Option.isSome_map]

theorem childrenOf_map (id : String) :
    (Store.mk (store.nodes.map f)).childrenOf id = (store.childrenOf id).map f := by
  rw [Store.childrenOf, Store.childrenOf, List.filter_map]
  simp only [Function.comp_def, h.parent]

/-- The same nodes are pruned. -/
theorem pruned_map (ids : List String) :
    (Store.mk (store.nodes.map f)).pruned ids = (store.pruned ids).map f := by
  rw [Store.pruned, Store.pruned, List.filter_map]
  simp only [Function.comp_def, h.id, h.isAncestor_map]

end KeepsLinks

namespace Store

variable {store : Store} {node n : Node} {name : Option String} {fresh : Nat → String}

/-! ### What is taken out -/

theorem parentOf_eq_leads (hunique : (idsOf store.nodes).Nodup) : store.ParentOf = store.Leads := by
  funext id parent
  exact propext (parentOf_iff_leads hunique)

/-- **What is pruned** are the nodes with the identifiers, and all that is below them. -/
theorem mem_pruned_iff (hunique : (idsOf store.nodes).Nodup) {groups : List Node}
    (hgroups : ∀ group ∈ groups, group ∈ store.nodes) :
    n ∈ store.pruned (idsOf groups) ↔
      n ∈ store.nodes ∧ ¬∃ group ∈ groups, n = group ∨ store.Under n group := by
  rw [pruned, List.mem_filter]
  refine and_congr_right fun hn => ?_
  have hgroup : ∀ group ∈ groups, (n = group ∨ store.Under n group ↔
      group.id = n.id ∨ store.isAncestor group.id n.id = true) := by
    intro group hmem
    have hsame : n = group ↔ group.id = n.id :=
      ⟨fun heq => congrArg Node.id heq.symm,
        fun hid => List.inj_on_of_nodup_map hunique hn (hgroups group hmem) hid.symm⟩
    rw [isAncestor_iff, get?_of_unique hunique (hgroups group hmem), hsame, Under,
      parentOf_eq_leads hunique]
    by_cases hid : group.id = n.id
    · simp [hid]
    · simp [hid]
  have hfound : (∃ group ∈ groups, n = group ∨ store.Under n group) ↔
      ∃ group ∈ groups, group.id = n.id ∨ store.isAncestor group.id n.id = true :=
    exists_congr fun group => and_congr_right (hgroup group)
  rw [hfound]
  simp [idsOf, not_or, forall_and]

/-- The node stays: if it were below one of its own arguments, it would be below itself. -/
theorem mem_pruned_arguments (hunique : (idsOf store.nodes).Nodup) (hnode : node ∈ store.nodes)
    (hcycle : ¬Relation.TransGen store.ParentOf node.id node.id) :
    node ∈ store.pruned (idsOf (store.argumentsOf node.id)) := by
  have hmem : ∀ group ∈ store.argumentsOf node.id, group ∈ store.nodes ∧ group.parent = some node.id :=
    fun group hgroup => mem_childrenOf.mp (mem_argumentsOf.mp hgroup).1
  refine (mem_pruned_iff hunique fun group hgroup => (hmem group hgroup).1).mpr ⟨hnode, ?_⟩
  rintro ⟨group, hgroup, hbelow⟩
  obtain ⟨hin, hparent⟩ := hmem group hgroup
  have hstep : store.ParentOf group.id node.id := ⟨group, hin, rfl, hparent⟩
  rcases hbelow with rfl | hbelow
  · exact hcycle (.single hstep)
  · exact hcycle (hbelow.tail hstep)

/-! ### The new list -/

theorem update_setFunction (hunique : (idsOf store.nodes).Nodup) (hnode : node ∈ store.nodes)
    (name : Option String) : store.update node.id [.kind .function, .function name] =
      .ok (node.recast name,
        ⟨store.nodes.map fun n => (Edit.setFunction node.id name).revise n⟩) := by
  have hput := putAt_eq_map (f := fun n => (Edit.setFunction node.id name).revise n) hunique hnode
    fun m _ hm => Edit.revise_setFunction_of_ne hm name
  rw [Edit.revise_setFunction_self] at hput
  rw [update, require, get?_of_unique hunique hnode, ← hput]
  rfl

/-- The arguments of a node that is not its own child stay the same when it becomes a call. -/
theorem argumentsOf_revise (hunique : (idsOf store.nodes).Nodup) (hnode : node ∈ store.nodes)
    (hself : node.parent ≠ some node.id) (name : Option String) :
    (Store.mk (store.nodes.map fun n => (Edit.setFunction node.id name).revise n)).argumentsOf node.id =
      store.argumentsOf node.id := by
  have hsame : ∀ child ∈ store.childrenOf node.id,
      (Edit.setFunction node.id name).revise child = child := by
    intro child hchild
    obtain ⟨hmem, hparent⟩ := mem_childrenOf.mp hchild
    refine Edit.revise_setFunction_of_ne (fun hid => hself ?_) name
    rw [← List.inj_on_of_nodup_map hunique hmem hnode hid, hparent, hid]
  rw [argumentsOf, argumentsOf, (Edit.keepsLinks_setFunction node.id name).childrenOf_map,
    List.map_congr_left hsame, List.map_id']

/-- The list once a node is a call of a function with a fixed number of arguments. -/
theorem setFunction_eq_pruned (hunique : (idsOf store.nodes).Nodup) (hnode : node ∈ store.nodes)
    (hself : node.parent ≠ some node.id) {count : Nat}
    (harity : Signature.fixedArity? name = some count) (fresh : Nat → String) :
    store.setFunction node.id name fresh = .ok (emptyArguments node.id fresh count,
      ⟨(store.pruned (idsOf (store.argumentsOf node.id))).map
          (fun n => (Edit.setFunction node.id name).revise n) ++
        emptyArguments node.id fresh count⟩) := by
  rw [← (Edit.keepsLinks_setFunction node.id name).pruned_map,
    ← argumentsOf_revise hunique hnode hself name, setFunction, update_setFunction hunique hnode]
  simp only [harity]
  rfl

/-- What is left of a store once a node is a call with other arguments. -/
structure Rebuilds (store : Store) (node : Node) (name : Option String) (groups : List Node)
    (after : Store) : Prop where
  /-- The old list is there without the former groups and all that is below them, and with the node as a
  call in its place. The new groups follow. -/
  nodes : ∃ kept : List Node, kept.Sublist store.nodes ∧ node ∈ kept ∧
    (∀ n, n ∈ kept ↔ n ∈ store.nodes ∧
      ¬∃ group ∈ store.argumentsOf node.id, n = group ∨ store.Under n group) ∧
    after.nodes = (kept.map fun n => (Edit.setFunction node.id name).revise n) ++ groups
  arguments : after.argumentsOf node.id = groups
  childless : ∀ group ∈ groups, after.childrenOf group.id = []

/-! ### Empty groups -/

section Empty

variable {owner id : String} {count : Nat} {nodes : List Node}

theorem mem_emptyArguments {group : Node} : group ∈ emptyArguments owner fresh count ↔
    ∃ slot < count, group = .ofGroup (fresh slot) (some owner) (some slot) := by
  simp [emptyArguments, eq_comm]

/-- Where a node has no other arguments, its arguments are the new groups, in the order of their slots. -/
theorem argumentsOf_append (h : ∀ n ∈ nodes, n.parent = some owner → n.isArgument = false) :
    (Store.mk (nodes ++ emptyArguments owner fresh count)).argumentsOf owner =
      emptyArguments owner fresh count := by
  have hold : nodes.filter (fun n => n.isArgument && decide (n.parent = some owner)) = [] := by
    rw [List.filter_eq_nil_iff]
    intro n hn hargument
    rw [Bool.and_eq_true, decide_eq_true_eq] at hargument
    rw [h n hn hargument.2] at hargument
    cases hargument.1
  have hnew : (emptyArguments owner fresh count).filter
      (fun n => n.isArgument && decide (n.parent = some owner)) = emptyArguments owner fresh count := by
    refine List.filter_eq_self.mpr fun group hgroup => ?_
    obtain ⟨slot, -, rfl⟩ := mem_emptyArguments.mp hgroup
    simp [Node.ofGroup, Node.isArgument]
  have hsorted : (emptyArguments owner fresh count).Pairwise fun a b =>
      decide (a.slot.getD 0 ≤ b.slot.getD 0) = true := by
    rw [emptyArguments, List.pairwise_map]
    refine List.pairwise_lt_range.imp fun {a b} hlt => ?_
    have hle : (a : Int) ≤ b := by omega
    simpa [Node.ofGroup] using hle
  rw [argumentsOf, childrenOf, List.filter_filter, List.filter_append, hold, hnew, List.nil_append,
    sortBy_of_pairwise hsorted]

/-- The new groups are children of their owner and of no other node. -/
theorem childrenOf_append (hne : owner ≠ id) :
    (Store.mk (nodes ++ emptyArguments owner fresh count)).childrenOf id =
      (Store.mk nodes).childrenOf id := by
  have hnew : (emptyArguments owner fresh count).filter (·.parent = some id) = [] := by
    rw [List.filter_eq_nil_iff]
    intro group hgroup
    obtain ⟨slot, -, rfl⟩ := mem_emptyArguments.mp hgroup
    simpa [Node.ofGroup] using hne
  rw [childrenOf, childrenOf, List.filter_append, hnew, List.append_nil]

end Empty

/-! ### The two cases -/

/-- **The arguments of a node are rebuilt** when it becomes a call of a function with a fixed number of
arguments. -/
theorem setFunction_of_exactly (hunique : (idsOf store.nodes).Nodup) (hnode : node ∈ store.nodes)
    (hcycle : ¬Relation.TransGen store.ParentOf node.id node.id) {count : Nat}
    (harity : Signature.fixedArity? name = some count) (hunused : ∀ k < count, store.Unused (fresh k)) :
    ∃ after, store.setFunction node.id name fresh = .ok (emptyArguments node.id fresh count, after) ∧
      store.Rebuilds node name (emptyArguments node.id fresh count) after := by
  have hlinks := Edit.keepsLinks_setFunction node.id name
  have hself : node.parent ≠ some node.id := fun hparent =>
    hcycle (.single ⟨node, hnode, rfl, hparent⟩)
  have hkept : ∀ n, n ∈ store.pruned (idsOf (store.argumentsOf node.id)) ↔ n ∈ store.nodes ∧
      ¬∃ group ∈ store.argumentsOf node.id, n = group ∨ store.Under n group :=
    fun n => mem_pruned_iff hunique fun group hgroup =>
      (mem_childrenOf.mp (mem_argumentsOf.mp hgroup).1).1
  refine ⟨_, setFunction_eq_pruned hunique hnode hself harity fresh,
    ⟨_, List.filter_sublist, mem_pruned_arguments hunique hnode hcycle, hkept, rfl⟩, ?_, ?_⟩
  · refine argumentsOf_append fun n hn hparent => ?_
    obtain ⟨m, hm, rfl⟩ := List.mem_map.mp hn
    rw [hlinks.parent] at hparent
    obtain ⟨hmem, hspared⟩ := (hkept m).mp hm
    by_cases hid : m.id = node.id
    · rw [List.inj_on_of_nodup_map hunique hmem hnode hid, Edit.revise_setFunction_self]
      rfl
    · rw [Edit.revise_setFunction_of_ne hid]
      by_contra hargument
      exact hspared ⟨m, mem_argumentsOf.mpr
        ⟨mem_childrenOf.mpr ⟨hmem, hparent⟩, by simpa using hargument⟩, .inl rfl⟩
  · intro group hgroup
    obtain ⟨slot, hslot, rfl⟩ := mem_emptyArguments.mp hgroup
    obtain ⟨hfree, hparentless⟩ := hunused slot hslot
    have hne : node.id ≠ fresh slot := fun heq => hfree (heq ▸ List.mem_map_of_mem hnode)
    show childrenOf _ (fresh slot) = []
    rw [childrenOf_append hne, hlinks.childrenOf_map ⟨_⟩, List.map_eq_nil_iff, childrenOf,
      List.filter_eq_nil_iff]
    intro n hn
    simpa using hparentless n ((hkept n).mp hn).1

/-- A function of any number of arguments keeps those that there are, and so does a name of no function. -/
theorem setFunction_of_not_exactly (hunique : (idsOf store.nodes).Nodup) (hnode : node ∈ store.nodes)
    (harity : Signature.fixedArity? name = none) (fresh : Nat → String) :
    store.setFunction node.id name fresh =
      .ok ([], ⟨store.nodes.map fun n => (Edit.setFunction node.id name).revise n⟩) := by
  rw [setFunction, update_setFunction hunique hnode]
  simp only [harity]
  rfl

theorem fixedArity?_of_exactly {signature : Signature} {count : Nat}
    (h : name.bind Signature.find? = some signature) (harity : signature.arity = .exactly count) :
    Signature.fixedArity? name = some count := by
  obtain ⟨own, rfl, hfind⟩ := Option.bind_eq_some_iff.mp h
  exact (Signature.fixedArity?_eq_some_iff hfind).mpr harity

theorem fixedArity?_of_isVariadic
    (h : ∀ signature, name.bind Signature.find? = some signature → signature.isVariadic = true) :
    Signature.fixedArity? name = none := by
  cases hfixed : Signature.fixedArity? name with
  | none => rfl
  | some count =>
    cases hsignature : name.bind Signature.find? with
    | none =>
      rw [Signature.fixedArity?, hsignature] at hfixed
      cases hfixed
    | some signature =>
      obtain ⟨own, rfl, hfind⟩ := Option.bind_eq_some_iff.mp hsignature
      have hvariadic := h signature hsignature
      rw [Signature.isVariadic, (Signature.fixedArity?_eq_some_iff hfind).mp hfixed] at hvariadic
      cases hvariadic

/-- **What setting the function of a node changes.** For a function with a fixed number of arguments the
arguments are rebuilt, unless the node is below itself, and otherwise only the node becomes a call. -/
theorem rebuilds_of_setFunction (store : Store) (hunique : (idsOf store.nodes).Nodup)
    (hnode : node ∈ store.nodes) (name : Option String) (fresh : Nat → String) :
    (∀ signature count, name.bind Signature.find? = some signature →
      signature.arity = .exactly count → ¬Relation.TransGen store.ParentOf node.id node.id →
      (∀ k < count, store.Unused (fresh k)) →
        ∃ after, store.setFunction node.id name fresh =
            .ok (emptyArguments node.id fresh count, after) ∧
          store.Rebuilds node name (emptyArguments node.id fresh count) after) ∧
      ((∀ signature, name.bind Signature.find? = some signature → signature.isVariadic = true) →
        store.setFunction node.id name fresh =
          .ok ([], ⟨store.nodes.map fun n => (Edit.setFunction node.id name).revise n⟩)) :=
  ⟨fun _ _ hsignature harity hcycle hunused =>
      setFunction_of_exactly hunique hnode hcycle (fixedArity?_of_exactly hsignature harity) hunused,
    fun hvariadic =>
      setFunction_of_not_exactly hunique hnode (fixedArity?_of_isVariadic hvariadic) fresh⟩

/-- A call that is below its own argument is taken out with it, and the new group is left alone. -/
example : (Store.setFunction ⟨[.ofGroup "group" (some "call") (some 0),
    .ofFunction "call" (some "group") (some "NOT")]⟩ "call" (some "abs") nodeId).map (·.2.nodes) =
      .ok [.ofGroup (nodeId 0) (some "call") (some 0)] := by
  rfl

/-- A call whose two arguments stand on both sides of it in the list, what is in them somewhere else, and
two nodes that are the parents of each other. -/
def scattered : Store :=
  ⟨[.ofValue "two" (some "second") (some (.integer 2)), .ofGroup "second" (some "call") (some 1),
    .ofFunction "call" none (some "min"), .ofGroup "here" (some "there") none,
    .ofOperator "plus" none (some "+"), .ofGroup "first" (some "call") (some 0),
    .ofGroup "there" (some "here") none, .ofReference "one" (some "first") (some "a")]⟩

theorem rebuilds_scattered : (idsOf scattered.nodes).Nodup ∧
    ¬Relation.TransGen scattered.ParentOf "call" "call" ∧
      (∃ after, scattered.setFunction "call" (some "abs") nodeId =
          .ok ([.ofGroup (nodeId 0) (some "call") (some 0)], after) ∧
        scattered.Rebuilds (.ofFunction "call" none (some "min")) (some "abs")
          [.ofGroup (nodeId 0) (some "call") (some 0)] after) ∧
      scattered.setFunction "call" (some "AND") nodeId =
        .ok ([], ⟨scattered.nodes.map fun n => (Edit.setFunction "call" (some "AND")).revise n⟩) := by
  have hunique : (idsOf scattered.nodes).Nodup := by decide
  have hcall : .ofFunction "call" none (some "min") ∈ scattered.nodes := by decide
  have hcycle : ¬Relation.TransGen scattered.ParentOf "call" "call" := by
    rw [parentOf_eq_leads hunique, ← inCycle_iff]
    decide
  have hunused : ∀ k < 1, scattered.Unused (nodeId k) := by
    intro k hk
    obtain rfl : k = 0 := by omega
    exact ⟨by decide, by decide⟩
  obtain ⟨hexactly, -⟩ := rebuilds_of_setFunction scattered hunique hcall (some "abs") nodeId
  obtain ⟨-, hvariadic⟩ := rebuilds_of_setFunction scattered hunique hcall (some "AND") nodeId
  exact ⟨hunique, hcycle, hexactly _ 1 rfl rfl hcycle hunused, hvariadic (by decide)⟩

end Store
end Formulary
