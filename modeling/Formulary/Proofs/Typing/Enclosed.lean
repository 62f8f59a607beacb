/-
# Types do not depend on parentheses to the left

Operands and operators of a sequence are typed from left to right, so that a front of it may be put into
a group of its own. Here this is followed from the sequence up to the report. The sequences above read
nothing but the types of those below. The records come in another order, but under unique identifiers
there is one for each node, so that the report has the same types and the same issues in some order
(`Store.inferTypes_enclose`).

Key definitions: `Store.typed`, `Store.typedBelow`.
Key theorems: `Store.Encloses.typedBelow_sameBut`, `Store.inferTypes_enclose`.
-/
import Formulary.Proofs.Store.Enclosed
import Formulary.Proofs.Typing.Leftmost

namespace Formulary

/-! ### Trees of moved nodes -/

namespace Tree

variable (catalog : Catalog) {node : Node}

/-- Where a node hangs does not matter to what is found about it. -/
theorem infer_moveInto (front : List Node) (id : String) (node : Node) (children : List Tree) :
    infer catalog (mk (node.moveInto front id) children) = infer catalog (mk node children) := by
  unfold infer
  rfl

theorem infer_leaf (hkind : node.kind.isLeaf = true) (children : List Tree) :
    infer catalog (mk node children) = infer catalog (mk node []) := by
  unfold infer
  cases h : node.kind with
  | group => rw [h] at hkind; cases hkind
  | function => rw [h] at hkind; cases hkind
  | _ => rfl

end Tree

namespace Typed

variable {id : String} {front nodes : List Node} {u : Node → Typed}

theorem eq_of_fields {t u : Typed} (htype : t.type = u.type) (hissues : t.issues = u.issues)
    (hrecords : t.records = u.records) : t = u := by
  obtain ⟨_, _, _⟩ := t
  exact Typed.mk.injEq .. ▸ ⟨htype, hissues, hrecords⟩

theorem besideOperator_moveInto (types : List (String × DataType)) (neighbour : Option Node) :
    besideOperator types (neighbour.map (·.moveInto front id)) = besideOperator types neighbour := by
  cases neighbour <;> rfl

theorem foldOperators_moveInto (types : List (String × DataType)) : ∀ {previous : Option Node}
    {sofar : Option DataType} {nodes : List Node},
    foldOperators types (previous.map (·.moveInto front id)) sofar (nodes.map (·.moveInto front id)) =
      foldOperators types previous sofar nodes
  | _, _, [] => rfl
  | previous, sofar, node :: rest => by
    have ih := fun sofar => @foldOperators_moveInto types (some node) sofar rest
    rw [Option.map_some] at ih
    rw [List.map_cons, foldOperators, foldOperators, List.head?_map, besideOperator_moveInto,
      besideOperator_moveInto]
    simp only [ih]
    rfl

theorem filter_isOperand_moveInto (nodes : List Node) :
    (nodes.map (·.moveInto front id)).filter (·.isOperand) =
      (nodes.filter (·.isOperand)).map (·.moveInto front id) :=
  List.filter_map

/-- A sequence is typed as before when it is moved. -/
theorem ofSequence_moveInto (h : Role.alternates (nodes.map Node.role) = true) :
    ofSequence (nodes.map (·.moveInto front id)) u =
      ofSequence nodes fun node => u (node.moveInto front id) := by
  have hmoved : Role.alternates ((nodes.map (·.moveInto front id)).map Node.role) = true := by
    rw [List.map_map]
    exact h
  have htypes : operandTypes (nodes.map (·.moveInto front id)) u =
      operandTypes nodes fun node => u (node.moveInto front id) := by
    rw [operandTypes, filter_isOperand_moveInto, List.map_map]
    rfl
  have hfold := @foldOperators_moveInto id front
    (operandTypes nodes fun node => u (node.moveInto front id)) none none nodes
  rw [Option.map_none, ← htypes] at hfold
  have hlast : besideOperator (operandTypes (nodes.map (·.moveInto front id)) u)
      (nodes.map (·.moveInto front id)).getLast? =
        besideOperator (operandTypes nodes fun node => u (node.moveInto front id)) nodes.getLast? := by
    rw [List.getLast?_map, besideOperator_moveInto, htypes]
  obtain ⟨hissues, hrecords⟩ := ofSequence_eq (nodes.map (·.moveInto front id)) u
  obtain ⟨hissues', hrecords'⟩ := ofSequence_eq nodes fun node => u (node.moveInto front id)
  have htype := type_ofSequence hmoved u
  rw [hfold, hlast, htypes, ← type_ofSequence h] at htype
  rw [hfold, filter_isOperand_moveInto, List.flatMap_map, htypes,
    ((checkSequence_eq_nil_iff _).mpr hmoved).2, ← ((checkSequence_eq_nil_iff _).mpr h).2,
    ← hissues'] at hissues
  rw [hfold, filter_isOperand_moveInto, List.flatMap_map, htypes, ← hrecords'] at hrecords
  exact eq_of_fields htype hissues hrecords

end Typed

namespace Store

open Formulary.Tree

variable (catalog : Catalog) {store other : Store} {parent : Option String} {node group : Node}
  {front behind above : List Node}

/-- What is found about a node of a store. -/
def typed (store : Store) (catalog : Catalog) (node : Node) : Typed :=
  infer catalog (store.tree store.size node)

/-- What is found about the sequence of the nodes with a parent, or of the roots. -/
def typedBelow (store : Store) (catalog : Catalog) (parent : Option String) : Typed :=
  .ofSequence (store.siblings parent) (store.typed catalog)

theorem inferSequence_tree (nodes : List Node) :
    inferSequence catalog (nodes.map (store.tree store.size)) =
      .ofSequence nodes (store.typed catalog) := by
  have hnode : ((·.node.isOperand) : Tree → Bool) ∘ store.tree store.size = (·.isOperand) := by
    funext node
    rw [Function.comp_apply, node_tree]
  rw [inferSequence, map_node_tree, inferOperands_eq, List.filter_map, hnode, List.map_map]
  refine congrArg _ (List.map_congr_left fun node _ => ?_)
  rw [Function.comp_apply, node_tree, typed]

theorem inferSequence_forest (store : Store) :
    inferSequence catalog store.forest = store.typedBelow catalog none := by
  rw [forest, inferSequence_tree, roots_eq_siblings]
  rfl

/-- Below a node that a root leads to stand the trees of all that is read below it. -/
theorem tree_eq (hunique : (idsOf store.nodes).Nodup) (h : store.Climbs node above) :
    store.tree store.size node = .mk node ((store.below node).map (store.tree store.size)) := by
  rw [← tree]
  exact tree_stable hunique h (Nat.le_add_left _ _) (Nat.le_refl _) (Nat.le_succ _)

theorem typed_group (hunique : (idsOf store.nodes).Nodup) (h : store.Climbs node above)
    (hkind : node.kind = .group) : store.typed catalog node = Typed.recordAs node.id
      (let t := store.typedBelow catalog (some node.id)
       if (store.siblings (some node.id)).isEmpty then
         { t with issues := .emptyGroup node.id :: t.issues }
       else t) := by
  rw [typed, tree_eq hunique h, infer_group catalog hkind, inferSequence_tree, List.isEmpty_map, below,
    hkind]
  rfl

theorem typed_function (hunique : (idsOf store.nodes).Nodup) (h : store.Climbs node above)
    (hkind : node.kind = .function) : store.typed catalog node = Typed.recordAs node.id
      (.call node ((store.argumentsOf node.id).map fun group =>
        (group, (store.typedBelow catalog (some group.id)).recordAs group.id))) := by
  rw [typed, tree_eq hunique h, infer_function catalog hkind, inferArguments_eq, List.map_map, below,
    hkind]
  refine congrArg (fun groups => Typed.recordAs node.id (.call node groups))
    (List.map_congr_left fun group hgroup => ?_)
  obtain ⟨hchild, hargument⟩ := mem_argumentsOf.mp hgroup
  have hgroupKind := (Node.isArgument_iff.mp hargument).1
  rw [Function.comp_apply, tree_eq hunique (h.child hchild), below, hgroupKind]
  exact congrArg (fun t => (group, Typed.recordAs group.id t)) (inferSequence_tree catalog _)

/-! ### What is found about moved nodes -/

namespace Encloses

variable {catalog} (h : store.Encloses other parent group front behind)

include h

/-- A moved node is typed as before if what is below it is. -/
theorem typed_moveInto (hclimbs : store.Climbs node above)
    (hbelow : ∀ n rest, store.Climbs n rest → above.length ≤ rest.length →
      (store.typedBelow catalog (some n.id)).SameBut group.id (other.typedBelow catalog (some n.id))) :
    (store.typed catalog node).SameBut group.id
      (other.typed catalog (node.moveInto front group.id)) := by
  obtain ⟨found, hfound⟩ := h.climbs hclimbs
  cases hkind : node.kind with
  | group =>
    have hown := hbelow node above hclimbs (Nat.le_refl _)
    rw [typed_group catalog h.unique hclimbs hkind, typed_group catalog h.unique_after hfound hkind,
      Node.id_moveInto, h.isEmpty_siblings hclimbs]
    refine Typed.SameBut.recordAs ?_ node.id
    dsimp only
    split
    · exact hown.cons_issue _
    · exact hown
  | function =>
    rw [typed_function catalog h.unique hclimbs hkind,
      typed_function catalog h.unique_after hfound hkind, Node.id_moveInto,
      h.argumentsOf_eq hclimbs hkind]
    refine Typed.SameBut.recordAs ?_ node.id
    refine Typed.call_congr node fun argument hargument => ?_
    have hchild := hclimbs.child (mem_argumentsOf.mp hargument).1
    exact (hbelow argument _ hchild (Nat.le_succ _)).recordAs argument.id
  | _ =>
    have hleaf : node.kind.isLeaf = true := by rw [hkind]; rfl
    rw [typed, typed, tree_eq h.unique hclimbs, tree_eq h.unique_after hfound, infer_moveInto,
      infer_leaf catalog hleaf, infer_leaf catalog hleaf (List.map _ (other.below _))]
    exact .refl _

/-- The sequence that the group is put into is typed as before, if the nodes of it are. -/
theorem typedBelow_parent (hcheck : checkSequence (front ++ behind) = [])
    (hodd : front.length % 2 = 1) {found : List Node} (hgroup : other.Climbs group found)
    (hnode : ∀ node ∈ front ++ behind, (store.typed catalog node).SameBut group.id
      (other.typed catalog (node.moveInto front group.id))) :
    (store.typedBelow catalog parent).SameBut group.id (other.typedBelow catalog parent) := by
  have hunique := unique_siblings h.unique parent
  rw [h.before] at hunique
  have hbehind : ∀ node ∈ behind, node.id ≠ group.id := fun node hmem heq => by
    have hsiblings : node ∈ store.siblings parent := h.before ▸ List.mem_append_right _ hmem
    exact h.fresh (heq ▸ List.mem_map_of_mem (mem_siblings.mp hsiblings).1)
  let whole := Function.update (store.typed catalog) group
    ((Typed.ofSequence front (store.typed catalog)).recordAs group.id)
  have hgrouped : Typed.Grouped front behind group (store.typed catalog) whole := by
    refine ⟨hunique, hcheck, hodd, ?_, ?_, Function.update_self .., fun node hmem => ?_⟩
    · rw [Node.isOperand, h.kind]
      rfl
    · intro hmem
      obtain ⟨node, hmem, heq⟩ := List.mem_map.mp hmem
      exact hbehind node hmem heq
    · exact Function.update_of_ne (fun heq => hbehind node hmem (congrArg Node.id heq)) ..
  -- Below the group stands the front, where it is typed as it is by itself.
  have hwithin : (Typed.ofSequence front (store.typed catalog)).SameBut group.id
      (other.typedBelow catalog (some group.id)) := by
    rw [typedBelow, h.within, Typed.ofSequence_moveInto hgrouped.alternates.1]
    exact Typed.ofSequence_congr fun node hmem _ => hnode node (List.mem_append_left _ hmem)
  rw [typedBelow, typedBelow, h.before, h.after]
  refine hgrouped.sameBut.trans (Typed.ofSequence_congr fun node hmem _ => ?_)
  rcases List.mem_cons.mp hmem with rfl | hmem
  · have hsome : (other.siblings (some node.id)).isEmpty = false := by
      rw [h.within, List.isEmpty_map, List.isEmpty_eq_false_iff]
      exact h.nonempty
    rw [hgrouped.body, typed_group catalog h.unique_after hgroup h.kind, hsome]
    exact hwithin.recordAs node.id
  · have hmoved := hnode node (List.mem_append_right _ hmem)
    rw [Node.moveInto_of_notMem (h.notMem_front_of_mem_behind hmem)] at hmoved
    rw [hgrouped.others node hmem]
    exact hmoved

/-- **Every sequence that a root leads to is typed as before**, up to order. -/
theorem typedBelow_sameBut (hcheck : checkSequence (front ++ behind) = [])
    (hodd : front.length % 2 = 1) (hway : store.Way above) :
    (store.typedBelow catalog (nearest above)).SameBut group.id
      (other.typedBelow catalog (nearest above)) := by
  -- The induction goes down from the roots; a way up is never as long as the store.
  induction hroom : store.size - above.length using Nat.strong_induction_on generalizing above with
  | _ room ih =>
    have hnode : ∀ node ∈ store.siblings (nearest above), (store.typed catalog node).SameBut group.id
        (other.typed catalog (node.moveInto front group.id)) := by
      intro node hmem
      refine h.typed_moveInto (hway.climbs hmem) fun n rest hn hle => ?_
      have hlt := hn.length_lt h.unique
      exact ih _ (by rw [List.length_cons]; omega) hn.way rfl
    by_cases hparent : nearest above = parent
    · obtain ⟨found, hgroup⟩ := h.exists_climbs_group hway hparent
      rw [hparent, h.before] at hnode
      rw [hparent]
      exact h.typedBelow_parent hcheck hodd hgroup hnode
    · have hstay : ∀ node ∈ store.siblings (nearest above), (store.typed catalog node).SameBut group.id
          (other.typed catalog node) := by
        intro node hmem
        have hnotMem : node ∉ front := h.notMem_front ((mem_siblings.mp hmem).2 ▸ hparent)
        have hmoved := hnode node hmem
        rw [Node.moveInto_of_notMem hnotMem] at hmoved
        exact hmoved
      rw [typedBelow, typedBelow, h.others _ hparent (h.nearest_ne hway)]
      exact Typed.ofSequence_congr fun node hmem _ => hstay node hmem

end Encloses

/-! ### The report -/

/-- No leaf in the forest of a store has children. -/
theorem bareLeaves_forest (store : Store) : BareLeaves store.forest := by
  intro t ht hleaf
  rcases children_of_mem_forest ht with hnil | hbelow
  · exact hnil
  · rw [below_of_isLeaf hleaf, List.map_eq_nil_iff] at hbelow
    exact hbelow

/-- **Under unique identifiers no type is recorded twice.** -/
theorem nodup_keys (hunique : (idsOf store.nodes).Nodup) :
    (keysOf (inferSequence catalog store.forest).records).Nodup :=
  (keys_sequence catalog store.bareLeaves_forest).nodup_iff.mpr (nodup_preorder hunique)

end Store

namespace Typed.SameBut

/-- Findings that differ in order only have the same record for any other identifier. -/
theorem lastRecord {key id : String} {t u : Typed} (h : t.SameBut key u) (ht : (keysOf t.records).Nodup)
    (hu : (keysOf u.records).Nodup) (hne : id ≠ key) :
    lastRecord? t.records id = lastRecord? u.records id := by
  refine Option.ext fun type => ?_
  rw [lastRecord?_eq_some_iff ht, lastRecord?_eq_some_iff hu]
  have hmem := h.records.mem_iff (a := (id, type))
  simpa [hne] using hmem

end Typed.SameBut

namespace Store

/-- **Operators are typed as if they were parenthesized to the left.** Let nothing be wrong with the
alternation of the roots, or of the children of a group, and let an odd number of the first of them be
moved below a new plain group that is put into their place. Then the formula and all nodes have the types
that they had, and the issues are the same up to order. -/
theorem inferTypes_enclose (catalog : Catalog) {store : Store} (hunique : (idsOf store.nodes).Nodup)
    {parent : Option String}
    (howner : ∀ owner, parent = some owner → ∃ node ∈ store.nodes, node.id = owner ∧ node.kind = .group)
    (hcheck : checkSequence (store.siblings parent) = []) {count place : Nat} (hodd : count % 2 = 1)
    (hcount : count ≤ (store.siblings parent).length)
    (hplace : ((store.nodes.take place).filter (·.parent = parent)).length ≤ count) {id : String}
    (hfresh : ∀ node ∈ store.nodes, node.id ≠ id ∧ node.parent ≠ some id) :
    let before := store.inferTypes catalog
    let after := (store.enclose parent count place id).inferTypes catalog
    after.type = before.type ∧
      (∀ node ∈ store.nodes, after.types.lookup node.id = before.types.lookup node.id) ∧
      after.issues.Perm before.issues := by
  dsimp only
  have hnonempty : (store.siblings parent).take count ≠ [] := by
    intro hnil
    have hlength := congrArg List.length hnil
    rw [List.length_take, List.length_nil] at hlength
    omega
  have henclosed := encloses_enclose hunique hplace hfresh howner hnonempty
  have hfront : ((store.siblings parent).take count).length % 2 = 1 := by
    rw [List.length_take, Nat.min_eq_left hcount]
    exact hodd
  rw [← List.take_append_drop count (store.siblings parent)] at hcheck
  have hsame : (store.typedBelow catalog none).SameBut id
      ((store.enclose parent count place id).typedBelow catalog none) :=
    henclosed.typedBelow_sameBut hcheck hfront way_nil
  rw [← inferSequence_forest, ← inferSequence_forest] at hsame
  refine ⟨hsame.type.symm, fun node hnode => ?_, hsame.issues.symm⟩
  have hid : node.id ∈ idsOf store.nodes := List.mem_map_of_mem hnode
  have hafter : node.id ∈ idsOf (store.enclose parent count place id).nodes :=
    (idsOf_enclose_perm store parent count place id).mem_iff.mpr (List.mem_cons_of_mem _ hid)
  rw [lookup_inferTypes_eq catalog hid, lookup_inferTypes_eq catalog hafter,
    hsame.lastRecord (nodup_keys catalog hunique) (nodup_keys catalog henclosed.unique_after)
      (hfresh node hnode).1]

/-- A comparison of two values with a third one added to it, in a group. -/
def chain : Store :=
  ⟨[.ofGroup "sum" none none, .ofValue "one" (some "sum") none, .ofOperator "above" (some "sum") (some ">"),
    .ofValue "two" (some "sum") none, .ofOperator "plus" (some "sum") (some "+"),
    .ofValue "three" (some "sum") none]⟩

/-- With the comparison in a group of its own its result is no summand, as before. -/
theorem inferTypes_enclose_chain :
    (idsOf chain.nodes).Nodup ∧ checkSequence (chain.siblings (some "sum")) = [] ∧
      ((chain.enclose (some "sum") 3 1 "comparison").inferTypes []).type = .number ∧
      ((chain.enclose (some "sum") 3 1 "comparison").inferTypes []).issues.Perm
        [.operandType .arithmetic "+" .left .boolean "plus"] := by
  have howner : ∀ owner, some "sum" = some owner →
      ∃ node ∈ chain.nodes, node.id = owner ∧ node.kind = .group :=
    fun owner heq => ⟨_, List.mem_cons_self, Option.some.inj heq, rfl⟩
  obtain ⟨htype, -, hissues⟩ := @inferTypes_enclose [] chain (by decide) _ howner (by decide) 3 1
    (by decide) (by decide) (by decide) "comparison" (by decide)
  exact ⟨by decide, by decide, htype.trans (by decide), hissues.trans (.of_eq (by decide))⟩

end Store
end Formulary
