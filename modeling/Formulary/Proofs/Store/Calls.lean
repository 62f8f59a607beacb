/-
# The calls of a store

The functions of an arranged store in reading order are the calls of its outline, with as many arguments
(`Store.Arranged.map_functions`), and what a function takes is only a matter of how many it has
(`Store.Arranged.fillsSlots_iff`).

Key definitions: `Store.functions`, `Store.isHollow`, `Store.FillsSlots`.
Key theorems: `Store.Arranged.map_functions`, `Store.Arranged.isHollow_outline`,
`Store.Arranged.fillsSlots_iff`.
-/
import Formulary.Proofs.Store.Arranged
import Formulary.Proofs.Structure.Slots
import Formulary.Proofs.Tree.Calls

namespace Formulary

/-- If the slots are the first ones, only their number matters. -/
theorem Arity.takes_iff_of_perm {slots : List Int} {n : Nat} (h : slots.Perm (firstSlots n))
    (arity : Arity) : arity.Takes slots ↔ ∀ count, arity = .exactly count → n = count := by
  cases arity with
  | exactly count =>
    constructor
    · intro htakes other heq
      obtain rfl := Arity.exactly.inj heq
      have hlength := h.length_eq.symm.trans htakes.length_eq
      rwa [length_firstSlots, length_firstSlots] at hlength
    · intro hcount
      rw [← hcount count rfl]
      exact h
  | variadic =>
    constructor
    · intro _ count heq
      cases heq
    · exact fun _ => ⟨n, h⟩

theorem Signature.fixedArity?_eq_some_iff {name : String} {signature : Signature}
    (h : find? name = some signature) {count : Nat} :
    fixedArity? (some name) = some count ↔ signature.arity = .exactly count := by
  obtain ⟨own, arity, labels, rule, description, sample⟩ := signature
  rw [fixedArity?, Option.bind_some, h]
  cases arity <;> simp

namespace Store

open Formulary.Tree

variable {store : Store} {node : Node}

/-- The function nodes in reading order. -/
def functions (store : Store) : List Node :=
  store.preorder.filter (·.kind = .function)

/-- Whether a function has one argument group, which is empty, and no other. -/
def isHollow (store : Store) (node : Node) : Bool :=
  match store.argumentsOf node.id with
  | [group] => (store.childrenOf group.id).isEmpty
  | _ => false

/-- Whether a function is known and has an argument in each of its slots, and no other. -/
def FillsSlots (store : Store) (node : Node) : Prop :=
  ∃ name signature, node.function = some name ∧ Signature.find? name = some signature ∧
    signature.arity.Takes ((store.childrenOf node.id).filterMap (·.slot))

theorem exists_of_isHollow (h : store.isHollow node = true) :
    ∃ group, store.argumentsOf node.id = [group] ∧ store.childrenOf group.id = [] := by
  unfold isHollow at h
  split at h
  · next group heq => exact ⟨group, heq, List.isEmpty_iff.mp h⟩
  · cases h

/-- A hollow function has one argument group. -/
theorem length_argumentsOf_of_isHollow (h : store.isHollow node = true) :
    (store.argumentsOf node.id).length = 1 := by
  obtain ⟨group, hgroup, -⟩ := exists_of_isHollow h
  rw [hgroup]
  rfl

namespace Arranged

theorem mem_functions (h : store.Arranged) :
    node ∈ store.functions ↔ node ∈ store.nodes ∧ node.kind = .function := by
  rw [functions, List.mem_filter, h.isForest.preorder_perm.mem_iff, decide_eq_true_eq]

/-- The arguments of a known function fill its slots if they are as many as it takes. -/
theorem fillsSlots_iff (h : store.Arranged) (hnode : node ∈ store.nodes)
    (hkind : node.kind = .function)
    (hknown : isFunctionName (node.function.getD "") = true) :
    store.FillsSlots node ↔ ∀ count, Signature.fixedArity? node.function = some count →
      (store.argumentsOf node.id).length = count := by
  obtain ⟨name, hname⟩ := Option.isSome_iff_exists.mp (h.function node hnode hkind)
  rw [hname] at hknown
  obtain ⟨signature, hsignature⟩ := Option.isSome_iff_exists.mp hknown
  have hsignature : Signature.find? name = some signature := hsignature
  have hperm : ((store.childrenOf node.id).filterMap (·.slot)).Perm
      (firstSlots (store.childrenOf node.id).length) := by
    have hslots := (h.slots node hnode hkind).filterMap id
    rw [List.filterMap_map, List.filterMap_map] at hslots
    refine hslots.trans (List.Perm.of_eq ?_)
    rw [firstSlots, ← List.filterMap_eq_map]
    rfl
  have htakes := Arity.takes_iff_of_perm hperm signature.arity
  rw [(h.perm_argumentsOf hnode hkind).length_eq, FillsSlots, hname]
  constructor
  · rintro ⟨_, other, heq, hother, hfills⟩ count hcount
    obtain rfl := Option.some.inj heq
    obtain rfl := Option.some.inj (hsignature.symm.trans hother)
    exact htakes.mp hfills count ((Signature.fixedArity?_eq_some_iff hsignature).mp hcount)
  · intro hcount
    exact ⟨name, signature, rfl, hsignature, htakes.mpr fun count harity =>
      hcount count ((Signature.fixedArity?_eq_some_iff hsignature).mpr harity)⟩

/-- What is below a function of the forest are its arguments. -/
theorem map_node_children (h : store.Arranged) {t : Tree} (ht : t ∈ subtreesAll store.forest)
    (hkind : t.node.kind = .function) : t.children.map Tree.node = store.argumentsOf t.node.id := by
  rw [(subtrees_forest h.acyclic ht).2, below, hkind]

theorem length_argumentOutlines (ts : List Tree) : (argumentOutlines ts).length = ts.length := by
  induction ts with
  | nil => rfl
  | cons t rest ih =>
    obtain ⟨n, children⟩ := t
    rw [argumentOutlines, List.length_cons, ih, List.length_cons]

/-- The hollow functions of the store are the hollow calls of its outline. -/
theorem isHollow_outline (h : store.Arranged) {t : Tree} (ht : t ∈ subtreesAll store.forest)
    (hkind : t.node.kind = .function) : t.outline.isHollow = store.isHollow t.node := by
  have hchildren := h.map_node_children ht hkind
  obtain ⟨n, children⟩ := t
  have hkind : n.kind = .function := hkind
  have hchildren : children.map Tree.node = store.argumentsOf n.id := hchildren
  simp only [outline, hkind]
  rw [isHollow, show (Tree.mk n children).node.id = n.id from rfl, ← hchildren]
  rcases children with _ | ⟨⟨group, body⟩, _ | ⟨⟨other, others⟩, rest⟩⟩
  · rfl
  · -- The children of the only argument are the trees below it.
    have hgroup : Tree.mk group body ∈ subtreesAll store.forest :=
      subtrees_subset_of_mem ht (List.mem_cons_of_mem _ (mem_subtreesAll List.mem_cons_self))
    have hargument : group ∈ store.argumentsOf n.id := by
      rw [← hchildren]
      exact List.mem_singleton_self _
    have hgkind := (Node.isArgument_iff.mp (mem_argumentsOf.mp hargument).2).1
    have hbody : body.map Tree.node = store.childrenOf group.id := by
      have hbelow := (subtrees_forest h.acyclic hgroup).2
      rwa [below, show (Tree.mk group body).node.kind = .group from hgkind] at hbelow
    show (Outline.call _ [outlines body]).isHollow = (store.childrenOf group.id).isEmpty
    rw [← hbody]
    cases body <;> rfl
  · exact Outline.isHollow_call fun heq => by cases (List.cons.inj heq).2

/-- A single empty argument of a call is that of a hollow function. -/
theorem length_sole_argumentOutlines (h : store.Arranged) {t : Tree}
    (ht : t ∈ subtreesAll store.forest) (hkind : t.node.kind = .function) :
    (Outline.sole (argumentOutlines t.children)).length =
      if store.isHollow t.node then 0 else (store.argumentsOf t.node.id).length := by
  rw [← h.isHollow_outline ht hkind, ← h.map_node_children ht hkind, List.length_map]
  obtain ⟨n, children⟩ := t
  simp only [outline, show n.kind = .function from hkind]
  rw [← length_argumentOutlines]
  exact Outline.length_sole _ _

/-- **The functions of the store are the calls of its outline**, in the same order. -/
theorem map_functions (h : store.Arranged) {F : Node → Nat} {G : List (List Outline) → Nat}
    (hcount : ∀ t ∈ subtreesAll store.forest, t.node.kind = .function →
      F t.node = G (argumentOutlines t.children)) :
    store.functions.map (fun node => (node.function, F node)) =
      (Outline.sequenceCalls (outlines store.forest)).map (Prod.map some G) := by
  have hfunctions : store.functions =
      ((subtreesAll store.forest).filter (·.node.kind = .function)).map Tree.node := by
    rw [functions, preorder, ← map_node_subtreesAll, List.filter_map]
    rfl
  rw [hfunctions, sequenceCalls_outlines h.regular_forest, List.map_map, List.map_map]
  refine List.map_congr_left fun t ht => ?_
  obtain ⟨hmem, hkind⟩ := List.mem_filter.mp ht
  have hkind : t.node.kind = .function := of_decide_eq_true hkind
  obtain ⟨name, hname⟩ :=
    Option.isSome_iff_exists.mp (h.function t.node (subtrees_forest h.acyclic hmem).1 hkind)
  simp only [Function.comp_apply, callOf, Prod.map_apply, hname, Option.getD_some,
    hcount t hmem hkind]

end Arranged
end Store
end Formulary
