/-
# Every node is recorded once

Inference records a type for each node that it visits. Where leaves have no children it visits every node
once: the keys of its records are the identifiers of the trees in another order (`keys_sequence`). Where
these are unique, what the report has for a node is therefore the type that was inferred for it, at
whatever point of the run it was recorded (`Store.Intact.agrees_inferTypes`).

Key definitions: `Tree.Shaped`, `Tree.BareLeaves`, `TypeReport.typeOf`, `Agrees`.
Key theorems: `Tree.keys_sequence`, `Store.Intact.agrees_inferTypes`.
-/
import Formulary.Proofs.Store.Intact
import Formulary.Typing.Inference

namespace Formulary

/-! ### Records -/

/-- The keys of records. -/
def keysOf (records : List (String × DataType)) : List String :=
  records.map (·.1)

theorem keysOf_append (rs qs : List (String × DataType)) :
    keysOf (rs ++ qs) = keysOf rs ++ keysOf qs :=
  List.map_append

/-- Whether the types of identifiers are those that are recorded for them. -/
def Agrees (type : String → DataType) (records : List (String × DataType)) : Prop :=
  ∀ e ∈ records, type e.1 = e.2

namespace Agrees

variable {type : String → DataType} {rs qs : List (String × DataType)}

theorem append_iff : Agrees type (rs ++ qs) ↔ Agrees type rs ∧ Agrees type qs := by
  simp only [Agrees, List.mem_append]
  constructor
  · exact fun h => ⟨fun e he => h e (.inl he), fun e he => h e (.inr he)⟩
  · rintro ⟨hr, hq⟩ e (he | he)
    · exact hr e he
    · exact hq e he

/-- A record that agrees is found under its key. -/
theorem lastRecord (h : Agrees type rs) {id : String} (hid : id ∈ keysOf rs) :
    lastRecord? rs id = some (type id) := by
  have hreverse : Agrees type rs.reverse := fun e he => h e (List.mem_reverse.mp he)
  have hmem : id ∈ keysOf rs.reverse := by
    rw [keysOf, List.map_reverse, List.mem_reverse]
    exact hid
  unfold lastRecord?
  generalize rs.reverse = es at hreverse hmem
  induction es with
  | nil => cases hmem
  | cons e rest ih =>
    obtain ⟨key, t⟩ := e
    rw [List.lookup_cons]
    by_cases heq : id = key
    · rw [heq, beq_self_eq_true]
      exact congrArg some (hreverse _ List.mem_cons_self).symm
    · rw [beq_false_of_ne heq]
      refine ih (fun e he => hreverse e (List.mem_cons_of_mem _ he)) ?_
      exact (List.mem_cons.mp hmem).resolve_left heq

end Agrees

theorem lastRecord?_eq_none {rs : List (String × DataType)} {id : String} (h : id ∉ keysOf rs) :
    lastRecord? rs id = none := by
  rw [lastRecord?, List.lookup_eq_none_iff]
  intro e he
  have hne : id ≠ e.1 := fun heq => h (heq ▸ List.mem_map_of_mem (List.mem_reverse.mp he))
  exact bne_iff_ne.mpr hne

theorem lookup_map_pair {κ β : Type} [DecidableEq κ] (f : κ → β) {keys : List κ} {key : κ}
    (h : key ∈ keys) : (keys.map fun k => (k, f k)).lookup key = some (f key) := by
  induction keys with
  | nil => cases h
  | cons k rest ih =>
    rw [List.map_cons, List.lookup_cons]
    by_cases heq : key = k
    · rw [heq, beq_self_eq_true]
    · rw [beq_false_of_ne heq]
      exact ih ((List.mem_cons.mp h).resolve_left heq)

theorem lookup_of_mem {κ β : Type} [DecidableEq κ] {es : List (κ × β)} (h : (es.map (·.1)).Nodup)
    {e : κ × β} (he : e ∈ es) : es.lookup e.1 = some e.2 := by
  induction es with
  | nil => cases he
  | cons first rest ih =>
    obtain ⟨hkey, hrest⟩ := List.nodup_cons.mp h
    rw [List.lookup_cons]
    rcases List.mem_cons.mp he with rfl | he
    · rw [beq_self_eq_true]
    · have hmem : e.1 ∈ rest.map (·.1) := List.mem_map_of_mem he
      have hne : e.1 ≠ first.1 := by
        intro heq
        rw [heq] at hmem
        exact hkey hmem
      rw [beq_false_of_ne hne]
      exact ih hrest he

/-- Under keys without repetition every record is the last one of its key. -/
theorem lastRecord?_of_mem {rs : List (String × DataType)} (h : (keysOf rs).Nodup)
    {e : String × DataType} (he : e ∈ rs) : lastRecord? rs e.1 = some e.2 := by
  have hnodup : (rs.reverse.map (·.1)).Nodup := by
    rw [List.map_reverse, List.nodup_reverse]
    exact h
  exact lookup_of_mem hnodup (List.mem_reverse.mpr he)

theorem lastRecord?_eq_some_iff {rs : List (String × DataType)} (h : (keysOf rs).Nodup) {id : String}
    {type : DataType} : lastRecord? rs id = some type ↔ (id, type) ∈ rs := by
  refine ⟨fun hlast => ?_, lastRecord?_of_mem h⟩
  by_cases hid : id ∈ keysOf rs
  · obtain ⟨e, he, rfl⟩ := List.mem_map.mp hid
    obtain rfl := Option.some.inj ((lastRecord?_of_mem h he).symm.trans hlast)
    exact he
  · rw [lastRecord?_eq_none hid] at hlast
    cases hlast

/-- The type that a report has for a node. -/
def TypeReport.typeOf (report : TypeReport) (id : String) : DataType :=
  (report.types.lookup id).getD .unknown

/-! ### The keys of a run -/

namespace Tree

/-- Whether a tree has children of the right kind: a leaf none, a function arguments in different slots,
and a group everything else. -/
structure Shaped (t : Tree) : Prop where
  leaf : t.node.kind.isLeaf = true → t.children = []
  arguments : t.node.kind = .function → ∀ c ∈ t.children, c.node.isArgument = true
  slots : t.node.kind = .function → (t.children.map (·.node.slot)).Nodup
  operands : t.node.kind = .group → ∀ c ∈ t.children, c.node.isArgument = false

/-- Whether trees and all trees below them have children of the right kind. -/
def ShapedAll (ts : List Tree) : Prop :=
  ∀ t ∈ subtreesAll ts, t.Shaped

theorem ShapedAll.cons {t : Tree} {rest : List Tree} (h : ShapedAll (t :: rest)) :
    t.Shaped ∧ ShapedAll t.children ∧ ShapedAll rest := by
  rwa [ShapedAll, forall_subtreesAll_cons] at h

/-- Whether no leaf in trees has children. -/
def BareLeaves (ts : List Tree) : Prop :=
  ∀ t ∈ subtreesAll ts, t.node.kind.isLeaf = true → t.children = []

theorem ShapedAll.bareLeaves {ts : List Tree} (h : ShapedAll ts) : BareLeaves ts :=
  fun t ht => (h t ht).leaf

theorem BareLeaves.cons {t : Tree} {rest : List Tree} (h : BareLeaves (t :: rest)) :
    (t.node.kind.isLeaf = true → t.children = []) ∧ BareLeaves t.children ∧ BareLeaves rest := by
  rwa [BareLeaves, forall_subtreesAll_cons] at h

end Tree

namespace Typed

/-- The operators of a sequence are recorded in their order. -/
theorem keys_foldOperators (types : List (String × DataType)) :
    ∀ (nodes : List Node) (previous : Option Node) (sofar : Option DataType),
    keysOf (foldOperators types previous sofar nodes).2.2 =
      idsOf (nodes.filter (·.kind = .operator))
  | [], _, _ => rfl
  | node :: rest, previous, sofar => by
    unfold foldOperators
    by_cases hkind : node.kind = .operator
    · have ih := keys_foldOperators types rest (some node)
      simp only [List.filter_cons, hkind, decide_true, if_true]
      exact congrArg (node.id :: ·) (ih _)
    · simp only [List.filter_cons, hkind, decide_false, Bool.false_eq_true, if_false]
      exact keys_foldOperators types rest (some node) sofar

end Typed

namespace Tree

variable (catalog : Catalog)

theorem records_reference (node : Node) : (Typed.reference catalog node).records = [] := by
  unfold Typed.reference
  split
  · rfl
  · split
    · rfl
    · split <;> rfl

theorem records_call (node : Node) (arguments : List (Node × Typed)) :
    (Typed.call node arguments).records = arguments.flatMap (·.2.records) := by
  unfold Typed.call
  split <;> rfl

theorem infer_group {node : Node} (hkind : node.kind = .group) (children : List Tree) :
    infer catalog (mk node children) = Typed.recordAs node.id
      (let t := inferSequence catalog children
       if children.isEmpty then { t with issues := .emptyGroup node.id :: t.issues } else t) := by
  unfold infer
  rw [hkind]
  rfl

theorem infer_function {node : Node} (hkind : node.kind = .function) (children : List Tree) :
    infer catalog (mk node children) =
      Typed.recordAs node.id (.call node (inferArguments catalog children)) := by
  unfold infer
  rw [hkind]

/-- Each operand of a sequence is inferred by itself. -/
theorem inferOperands_eq (ts : List Tree) : inferOperands catalog ts =
    (ts.filter (·.node.isOperand)).map fun t => (t.node, infer catalog t) := by
  induction ts with
  | nil => rfl
  | cons t rest ih =>
    rw [inferOperands, ih, List.filter_cons]
    split <;> rfl

theorem inferArguments_eq (ts : List Tree) : inferArguments catalog ts =
    ts.map fun t => (t.node, (inferSequence catalog t.children).recordAs t.node.id) := by
  induction ts with
  | nil => rfl
  | cons t rest ih =>
    obtain ⟨group, children⟩ := t
    rw [inferArguments, ih]
    rfl

theorem idsOf_preorder (node : Node) (children : List Tree) :
    idsOf (mk node children).preorder = node.id :: idsOf (preorderAll children) := rfl

theorem idsOf_preorderAll_cons (t : Tree) (rest : List Tree) :
    idsOf (preorderAll (t :: rest)) = idsOf t.preorder ++ idsOf (preorderAll rest) :=
  List.map_append

theorem keys_sequence_of {ts : List Tree}
    (h : (keysOf ((inferOperands catalog ts).flatMap (·.2.records)) ++
      idsOf ((ts.map node).filter (·.kind = .operator))).Perm (idsOf (preorderAll ts))) :
    (keysOf (Typed.sequence (ts.map node) (inferOperands catalog ts)).records).Perm
      (idsOf (preorderAll ts)) := by
  unfold Typed.sequence
  rw [keysOf_append, Typed.keys_foldOperators]
  exact h

mutual

theorem keys_infer : ∀ {t : Tree}, (t.node.kind.isLeaf = true → t.children = []) →
    BareLeaves t.children → (keysOf (infer catalog t).records).Perm (idsOf t.preorder)
  | mk node children, hleaf, hall => by
    unfold infer
    rw [Typed.recordAs, keysOf_append, idsOf_preorder]
    refine (List.perm_append_singleton _ _).trans (List.Perm.cons _ ?_)
    have hleaf : node.kind.isLeaf = true → children = [] := hleaf
    have hall : BareLeaves children := hall
    cases hkind : node.kind with
    | value =>
      rw [hleaf (by rw [hkind]; rfl)]
      exact .nil
    | reference =>
      rw [hleaf (by rw [hkind]; rfl), records_reference]
      exact .nil
    | operator =>
      rw [hleaf (by rw [hkind]; rfl)]
      exact .nil
    | function =>
      rw [records_call]
      exact keys_inferArguments hall
    | group =>
      have hsequence := keys_sequence_of catalog (keys_inferOperands hall)
      simp only
      split
      · exact hsequence
      · exact hsequence

theorem keys_inferOperands : ∀ {ts : List Tree}, BareLeaves ts →
    (keysOf ((inferOperands catalog ts).flatMap (·.2.records)) ++
      idsOf ((ts.map node).filter (·.kind = .operator))).Perm (idsOf (preorderAll ts))
  | [], _ => .nil
  | t :: rest, h => by
    obtain ⟨hleaf, hchildren, hrest⟩ := h.cons
    have ih := keys_inferOperands hrest
    have hfirst := keys_infer hleaf hchildren
    unfold inferOperands
    rw [idsOf_preorderAll_cons, List.map_cons, List.filter_cons]
    by_cases hoperand : t.node.isOperand = true
    · have hkind : ¬t.node.kind = .operator := by simpa [Node.isOperand, Kind.isOperand] using hoperand
      rw [if_pos hoperand, if_neg (by simpa using hkind), List.flatMap_cons, keysOf_append,
        List.append_assoc]
      exact hfirst.append ih
    · -- An operator is recorded by its sequence, and it has no children.
      have hkind : t.node.kind = .operator := by
        simpa [Node.isOperand, Kind.isOperand] using hoperand
      obtain ⟨node, children⟩ := t
      have hnil : children = [] := hleaf (by rw [hkind]; rfl)
      rw [if_neg hoperand, if_pos (by simpa using hkind), hnil]
      exact List.perm_middle.trans (ih.cons node.id)

theorem keys_inferArguments : ∀ {ts : List Tree}, BareLeaves ts →
    (keysOf ((inferArguments catalog ts).flatMap (·.2.records))).Perm (idsOf (preorderAll ts))
  | [], _ => .nil
  | mk group children :: rest, h => by
    obtain ⟨-, hchildren, hrest⟩ := h.cons
    have hchildren : BareLeaves children := hchildren
    unfold inferArguments
    rw [idsOf_preorderAll_cons, List.flatMap_cons, keysOf_append]
    refine List.Perm.append ?_ (keys_inferArguments hrest)
    rw [Typed.recordAs, keysOf_append, idsOf_preorder]
    have hsequence := keys_sequence_of catalog (keys_inferOperands hchildren)
    exact (List.perm_append_singleton _ _).trans (hsequence.cons _)

end

/-- **Every node of a sequence and below it is recorded once.** -/
theorem keys_sequence {ts : List Tree} (h : BareLeaves ts) :
    (keysOf (inferSequence catalog ts).records).Perm (idsOf (preorderAll ts)) :=
  keys_sequence_of catalog (keys_inferOperands catalog h)

/-! ### Only nodes of the trees are recorded -/

theorem map_node_subset (ts : List Tree) : ts.map node ⊆ preorderAll ts := by
  intro n hn
  obtain ⟨t, ht, rfl⟩ := List.mem_map.mp hn
  exact map_node_subtreesAll ts ▸ List.mem_map_of_mem (mem_subtreesAll ht)

theorem keys_sequence_subset_of {ts : List Tree}
    (h : keysOf ((inferOperands catalog ts).flatMap (·.2.records)) ⊆ idsOf (preorderAll ts)) :
    keysOf (Typed.sequence (ts.map node) (inferOperands catalog ts)).records ⊆
      idsOf (preorderAll ts) := by
  unfold Typed.sequence
  rw [keysOf_append, Typed.keys_foldOperators]
  refine List.append_subset.mpr ⟨h, List.map_subset _ ?_⟩
  exact List.Subset.trans (List.filter_subset_self _) (map_node_subset ts)

mutual

theorem keys_infer_subset : ∀ t : Tree, keysOf (infer catalog t).records ⊆ idsOf t.preorder
  | mk node children => by
    unfold infer
    rw [Typed.recordAs, keysOf_append, idsOf_preorder]
    have hown : keysOf [(node.id, (infer catalog (mk node children)).type)] ⊆
        node.id :: idsOf (preorderAll children) := by
      simp [keysOf]
    refine List.append_subset.mpr ⟨List.subset_cons_of_subset _ ?_, hown⟩
    have hnil : keysOf [] ⊆ idsOf (preorderAll children) := List.nil_subset _
    cases node.kind with
    | value => exact hnil
    | reference =>
      rw [records_reference]
      exact hnil
    | operator => exact hnil
    | function =>
      rw [records_call]
      exact keys_inferArguments_subset children
    | group =>
      have hsequence := keys_sequence_subset_of catalog (keys_inferOperands_subset children)
      simp only
      split
      · exact hsequence
      · exact hsequence

theorem keys_inferOperands_subset : ∀ ts : List Tree,
    keysOf ((inferOperands catalog ts).flatMap (·.2.records)) ⊆ idsOf (preorderAll ts)
  | [] => List.nil_subset _
  | t :: rest => by
    have ih := List.subset_append_of_subset_right (idsOf t.preorder) (keys_inferOperands_subset rest)
    unfold inferOperands
    rw [idsOf_preorderAll_cons]
    split
    · rw [List.flatMap_cons, keysOf_append]
      exact List.append_subset.mpr ⟨List.subset_append_of_subset_left _ (keys_infer_subset t), ih⟩
    · exact ih

theorem keys_inferArguments_subset : ∀ ts : List Tree,
    keysOf ((inferArguments catalog ts).flatMap (·.2.records)) ⊆ idsOf (preorderAll ts)
  | [] => List.nil_subset _
  | mk group children :: rest => by
    have ih := keys_inferArguments_subset rest
    have hsequence := keys_sequence_subset_of catalog (keys_inferOperands_subset children)
    unfold inferArguments
    rw [idsOf_preorderAll_cons, List.flatMap_cons, keysOf_append, Typed.recordAs, keysOf_append,
      idsOf_preorder]
    refine List.append_subset.mpr ⟨List.subset_append_of_subset_left _ ?_,
      List.subset_append_of_subset_right _ ih⟩
    refine List.append_subset.mpr ⟨List.subset_cons_of_subset _ hsequence, ?_⟩
    simp [keysOf]

end

/-- **Inference records types for nodes of the trees only**, whatever the trees are. -/
theorem keys_sequence_subset (ts : List Tree) :
    keysOf (inferSequence catalog ts).records ⊆ idsOf (preorderAll ts) :=
  keys_sequence_subset_of catalog (keys_inferOperands_subset catalog ts)

end Tree

namespace Store

open Formulary.Tree

variable {store : Store}

/-- The forest of an intact store has children of the right kind only. -/
theorem Intact.shapedAll (h : store.Intact)
    (hslots : ∀ node ∈ store.nodes, node.kind = .function →
      ((store.argumentsOf node.id).map (·.slot)).Nodup) : ShapedAll store.forest := by
  intro t ht
  obtain ⟨hnode, hbelow⟩ := subtrees_forest h.acyclic ht
  have hchild : ∀ c ∈ t.children, c.node ∈ store.below t.node := by
    intro c hc
    rw [← hbelow]
    exact List.mem_map_of_mem hc
  refine ⟨fun hleaf => ?_, fun hkind c hc => ?_, fun hkind => ?_, fun hkind c hc => ?_⟩
  · rw [below_of_isLeaf hleaf, List.map_eq_nil_iff] at hbelow
    exact hbelow
  · have hmem := hchild c hc
    rw [below_of_function hkind] at hmem
    exact (mem_argumentsOf.mp hmem).2
  · have hmap : t.children.map (·.node.slot) = (store.argumentsOf t.node.id).map (·.slot) := by
      rw [← below_of_function hkind, ← hbelow, List.map_map]
      rfl
    rw [hmap]
    exact hslots t.node hnode hkind
  · have hmem := hchild c hc
    rw [below_of_group hkind] at hmem
    exact h.isArgument_of_mem_childrenOf hnode hkind hmem

/-- The report has for every node the type that was recorded last. -/
theorem lookup_inferTypes_eq (catalog : Catalog) {id : String} (hid : id ∈ idsOf store.nodes) :
    (store.inferTypes catalog).types.lookup id =
      some ((lastRecord? (inferSequence catalog store.forest).records id).getD .unknown) :=
  lookup_map_pair
    (fun id => (lastRecord? (inferSequence catalog store.forest).records id).getD .unknown)
    (List.mem_eraseDups.mpr hid)

/-- **The report of an intact store has for every node the type that was inferred for it.** -/
theorem Intact.agrees_inferTypes (h : store.Intact)
    (hslots : ∀ node ∈ store.nodes, node.kind = .function →
      ((store.argumentsOf node.id).map (·.slot)).Nodup) (catalog : Catalog) :
    Agrees (store.inferTypes catalog).typeOf (inferSequence catalog store.forest).records := by
  have hkeys : (keysOf (inferSequence catalog store.forest).records).Perm (idsOf store.nodes) :=
    (keys_sequence catalog (h.shapedAll hslots).bareLeaves).trans (h.isForest.preorder_perm.map _)
  intro e he
  have hlast := lastRecord?_of_mem (hkeys.nodup_iff.mpr h.unique) he
  have hid : e.1 ∈ idsOf store.nodes := hkeys.mem_iff.mp (List.mem_map_of_mem he)
  rw [TypeReport.typeOf, lookup_inferTypes_eq catalog hid, hlast]
  rfl

end Store

end Formulary
