/-
# Types under other identifiers

Inference looks up the types of operands by identifier. A map of nodes that renames the identifiers, no two
of them to one, renames them in what inference finds and in what it records (`Tree.infer_map`), and so in
the type report (`Store.inferTypes_map`).

Key definitions: `relabelKeys`, `Typed.relabel`.
Key theorems: `Typed.sequence_map`, `Tree.infer_map`, `Store.inferTypes_map`.
-/
import Formulary.Proofs.Relabel.Structure
import Formulary.Proofs.Store.Rooted
import Formulary.Proofs.Typing.Records

namespace Formulary

/-! ### Records -/

/-- Records with their keys renamed. -/
def relabelKeys (r : String → String) (records : List (String × DataType)) :
    List (String × DataType) :=
  records.map fun e => (r e.1, e.2)

theorem relabelKeys_append (r : String → String) (rs qs : List (String × DataType)) :
    relabelKeys r (rs ++ qs) = relabelKeys r rs ++ relabelKeys r qs :=
  List.map_append

theorem lastRecord?_relabelKeys {r : String → String} {S : Set String} (hr : Set.InjOn r S)
    {rs : List (String × DataType)} (hrs : ∀ key ∈ keysOf rs, key ∈ S) {id : String} (hid : id ∈ S) :
    lastRecord? (relabelKeys r rs) (r id) = lastRecord? rs id := by
  have hreverse : ∀ e ∈ rs.reverse, e.1 ∈ S :=
    fun e he => hrs _ (List.mem_map_of_mem (List.mem_reverse.mp he))
  rw [lastRecord?, lastRecord?, relabelKeys, ← List.map_reverse]
  generalize rs.reverse = es at hreverse
  induction es with
  | nil => rfl
  | cons e rest ih =>
    obtain ⟨key, type⟩ := e
    rw [List.map_cons, List.lookup_cons, List.lookup_cons,
      ih fun e he => hreverse e (List.mem_cons_of_mem _ he)]
    have hkey : (r id == r key) = (id == key) := by
      rw [Bool.eq_iff_iff, beq_iff_eq, beq_iff_eq]
      exact hr.eq_iff hid (hreverse _ List.mem_cons_self)
    rw [hkey]

/-! ### Typing rules -/

theorem operatorTyping_relabel (r : String → String) (symbol : Option String)
    (left right : DataType) (id : String) :
    operatorTyping symbol left right (r id) =
      ((operatorTyping symbol left right id).1,
        (operatorTyping symbol left right id).2.map (Issue.relabel r)) := by
  have hoperand : ∀ (family : Operator.Family) symbol side actual,
      operandMismatches family symbol side actual (r id) =
        (operandMismatches family symbol side actual id).map (Issue.relabel r) := by
    intro family symbol side actual
    unfold operandMismatches
    split <;> rfl
  cases symbol with
  | none => rfl
  | some symbol =>
    rw [operatorTyping, operatorTyping]
    cases Operator.family? symbol with
    | none => rfl
    | some family =>
      dsimp only
      rw [operatorMismatches, operatorMismatches, hoperand, hoperand, List.map_append,
        List.map_append]
      split <;> rfl

theorem argumentMismatches_relabel (r : String → String) (name : String) (expected : DataType)
    (id : Option String) : ∀ (place : Nat) (types : List DataType),
    argumentMismatches name expected (id.map r) place types =
      (argumentMismatches name expected id place types).map (Issue.relabel r)
  | _, [] => rfl
  | place, actual :: rest => by
    rw [argumentMismatches, argumentMismatches, argumentMismatches_relabel r name expected id,
      List.map_append]
    refine congrArg (· ++ _) ?_
    split <;> rfl

theorem functionTyping_relabel (r : String → String) (signature : Signature)
    (types : List DataType) (id : Option String) :
    functionTyping signature types (id.map r) =
      ((functionTyping signature types id).1,
        (functionTyping signature types id).2.map (Issue.relabel r)) := by
  unfold functionTyping
  cases signature.rule with
  | numeric => dsimp only; rw [argumentMismatches_relabel]
  | allBoolean => dsimp only; rw [argumentMismatches_relabel]
  | negation =>
    cases types with
    | nil => rfl
    | cons actual rest =>
      dsimp only
      split <;> rfl
  | nullCheck => rfl
  | conditional =>
    dsimp only
    unfold conditionalTyping
    dsimp only
    rw [List.map_append]
    split_ifs <;> rfl

/-- What inference finds, with the identifiers renamed. -/
def Typed.relabel (r : String → String) (t : Typed) : Typed :=
  ⟨t.type, t.issues.map (Issue.relabel r), relabelKeys r t.records⟩

namespace Typed

/-- What was found about operands, for the images of the nodes. -/
def relabelOperands (r : String → String) (f : Node → Node) (operands : List (Node × Typed)) :
    List (Node × Typed) :=
  operands.map fun (node, t) => (f node, t.relabel r)

variable {r : String → String} {f : Node → Node} (h : Relabels r f)

include h

theorem recordAs_relabel (node : Node) (t : Typed) :
    (t.relabel r).recordAs (f node).id = (t.recordAs node.id).relabel r := by
  rw [recordAs, recordAs, relabel, relabel, relabelKeys_append, h.id]
  rfl

theorem reference_map (catalog : Catalog) (node : Node) :
    reference catalog (f node) = (reference catalog node).relabel r := by
  rw [reference, reference, h.reference, h.id]
  cases node.reference with
  | none => rfl
  | some id =>
    dsimp only
    split
    · rfl
    · cases catalog.lookup? id <;> rfl

theorem call_map (node : Node) (arguments : List (Node × Typed)) :
    call (f node) (relabelOperands r f arguments) = (call node arguments).relabel r := by
  have hissues : (relabelOperands r f arguments).flatMap (·.2.issues) =
      (arguments.flatMap (·.2.issues)).map (Issue.relabel r) := by
    rw [relabelOperands, List.flatMap_map, List.map_flatMap]
    rfl
  have hrecords : (relabelOperands r f arguments).flatMap (·.2.records) =
      relabelKeys r (arguments.flatMap (·.2.records)) := by
    rw [relabelOperands, List.flatMap_map, relabelKeys, List.map_flatMap]
    rfl
  have hslots : (relabelOperands r f arguments).map (fun (group, t) => (group.slot.getD 0, t.type)) =
      arguments.map fun (group, t) => (group.slot.getD 0, t.type) := by
    rw [relabelOperands, List.map_map]
    refine List.map_congr_left fun (group, t) _ => ?_
    exact congrArg (·.getD 0, t.type) (h.slot group)
  rw [call, call, hissues, hrecords, hslots, h.function, h.id]
  cases node.function.bind Signature.find? with
  | none => rw [relabel, List.map_append]; rfl
  | some signature =>
    dsimp only
    rw [← Option.map_some, functionTyping_relabel, relabel, List.map_append]

variable {S : Set String} (hr : Set.InjOn r S)

include hr

theorem besideOperator_map {types : List (String × DataType)} (htypes : ∀ key ∈ keysOf types, key ∈ S)
    {neighbour : Option Node} (hneighbour : ∀ node, neighbour = some node → node.id ∈ S) :
    besideOperator (relabelKeys r types) (neighbour.map f) = besideOperator types neighbour := by
  cases neighbour with
  | none => rfl
  | some node =>
    rw [Option.map_some, besideOperator, besideOperator, h.isOperand, h.id,
      lastRecord?_relabelKeys hr htypes (hneighbour node rfl)]

theorem foldOperators_map {types : List (String × DataType)} (htypes : ∀ key ∈ keysOf types, key ∈ S) :
    ∀ {previous : Option Node} {sofar : Option DataType} {nodes : List Node},
    (∀ node, previous = some node → node.id ∈ S) → (∀ node ∈ nodes, node.id ∈ S) →
    foldOperators (relabelKeys r types) (previous.map f) sofar (nodes.map f) =
      ((foldOperators types previous sofar nodes).1,
        (foldOperators types previous sofar nodes).2.1.map (Issue.relabel r),
        relabelKeys r (foldOperators types previous sofar nodes).2.2)
  | _, _, [], _, _ => rfl
  | previous, sofar, node :: rest, hprevious, hnodes => by
    have hnode : ∀ n, some node = some n → n.id ∈ S := by
      intro n hn
      obtain rfl := Option.some.inj hn
      exact hnodes node List.mem_cons_self
    have hrest : ∀ n ∈ rest, n.id ∈ S := fun n hn => hnodes n (List.mem_cons_of_mem _ hn)
    have hhead : ∀ n, rest.head? = some n → n.id ∈ S := fun n hn => hrest n (List.mem_of_head? hn)
    have ih := fun sofar => @foldOperators_map types htypes (some node) sofar rest hnode hrest
    rw [Option.map_some] at ih
    rw [List.map_cons, foldOperators, foldOperators, List.head?_map, h.kind, h.operator, h.id,
      besideOperator_map h hr htypes hprevious, besideOperator_map h hr htypes hhead]
    simp only [operatorTyping_relabel, ih]
    split
    · dsimp only
      rw [List.map_append]
      rfl
    · rfl

theorem sequence_map {nodes : List Node} {operands : List (Node × Typed)}
    (hnodes : ∀ node ∈ nodes, node.id ∈ S) (hoperands : ∀ o ∈ operands, o.1.id ∈ S) :
    sequence (nodes.map f) (relabelOperands r f operands) = (sequence nodes operands).relabel r := by
  have htypes : (relabelOperands r f operands).map (fun (node, t) => (node.id, t.type)) =
      relabelKeys r (operands.map fun (node, t) => (node.id, t.type)) := by
    rw [relabelOperands, relabelKeys, List.map_map, List.map_map]
    refine List.map_congr_left fun (node, t) _ => ?_
    exact congrArg (·, t.type) (h.id node)
  have hissues : (relabelOperands r f operands).flatMap (·.2.issues) =
      (operands.flatMap (·.2.issues)).map (Issue.relabel r) := by
    rw [relabelOperands, List.flatMap_map, List.map_flatMap]
    rfl
  have hrecords : (relabelOperands r f operands).flatMap (·.2.records) =
      relabelKeys r (operands.flatMap (·.2.records)) := by
    rw [relabelOperands, List.flatMap_map, relabelKeys, List.map_flatMap]
    rfl
  have hkeys : ∀ key ∈ keysOf (operands.map fun (node, t) => (node.id, t.type)), key ∈ S := by
    intro key hkey
    rw [keysOf, List.map_map] at hkey
    obtain ⟨o, ho, rfl⟩ := List.mem_map.mp hkey
    exact hoperands o ho
  have hfold := @foldOperators_map _ _ h _ hr _ hkeys none none nodes (fun _ h => nomatch h) hnodes
  rw [Option.map_none] at hfold
  unfold sequence relabel
  simp only [htypes, hissues, hrecords, hfold, checkSequence_map h, List.map_append,
    relabelKeys_append]
  congr 1
  cases (foldOperators (operands.map fun (node, t) => (node.id, t.type)) none none nodes).1 with
  | some type => rfl
  | none =>
    match nodes, hnodes with
    | [], _ => rfl
    | [node], hnodes =>
      have hnode : ∀ n, some node = some n → n.id ∈ S := by
        intro n hn
        obtain rfl := Option.some.inj hn
        exact hnodes node List.mem_cons_self
      exact besideOperator_map h hr hkeys hnode
    | _ :: _ :: _, _ => rfl

end Typed

namespace Tree

variable {catalog : Catalog} {r : String → String} {f : Node → Node} {S : Set String}

theorem mem_inferOperands {o : Node × Typed} {ts : List Tree} (ho : o ∈ inferOperands catalog ts) :
    o.1 ∈ ts.map node := by
  rw [inferOperands_eq] at ho
  obtain ⟨t, ht, rfl⟩ := List.mem_map.mp ho
  exact List.mem_map_of_mem (List.mem_of_mem_filter ht)

theorem inferSequence_map_of (h : Relabels r f) (hr : Set.InjOn r S) {ts : List Tree}
    (hts : ∀ n ∈ preorderAll ts, n.id ∈ S)
    (hoperands : inferOperands catalog (mapAll f ts) =
      Typed.relabelOperands r f (inferOperands catalog ts)) :
    Typed.sequence ((mapAll f ts).map node) (inferOperands catalog (mapAll f ts)) =
      (Typed.sequence (ts.map node) (inferOperands catalog ts)).relabel r := by
  have hnodes : ∀ n ∈ ts.map node, n.id ∈ S := fun n hn => hts n (map_node_subset ts hn)
  rw [map_node_mapAll, hoperands]
  exact Typed.sequence_map h hr hnodes fun o ho => hnodes o.1 (mem_inferOperands ho)

mutual

theorem infer_map (h : Relabels r f) (hr : Set.InjOn r S) : ∀ {t : Tree},
    (∀ n ∈ t.preorder, n.id ∈ S) → infer catalog (t.map f) = (infer catalog t).relabel r
  | mk node children, ht => by
    have hchildren : ∀ n ∈ preorderAll children, n.id ∈ S := fun n hn => ht n (List.mem_cons_of_mem _ hn)
    have harguments := inferArguments_map h hr hchildren
    have hsequence := inferSequence_map_of h hr hchildren (inferOperands_map h hr hchildren)
    have hempty : (mapAll f children).isEmpty = children.isEmpty := by
      rw [mapAll_eq_map, List.isEmpty_map]
    rw [map, infer, infer, ← Typed.recordAs_relabel h, h.kind, hempty]
    refine congrArg (Typed.recordAs (f node).id) ?_
    cases node.kind with
    | value => rfl
    | reference => exact Typed.reference_map h catalog node
    | operator => rfl
    | function =>
      rw [harguments]
      exact Typed.call_map h node _
    | group =>
      dsimp only
      rw [hsequence, h.id]
      split <;> rfl

theorem inferOperands_map (h : Relabels r f) (hr : Set.InjOn r S) : ∀ {ts : List Tree},
    (∀ n ∈ preorderAll ts, n.id ∈ S) →
    inferOperands catalog (mapAll f ts) = Typed.relabelOperands r f (inferOperands catalog ts)
  | [], _ => rfl
  | t :: rest, hts => by
    have ht := infer_map h hr fun n hn => hts n (List.mem_append_left _ hn)
    have ih := inferOperands_map h hr
      fun n hn => hts n (List.mem_append_right _ hn)
    rw [mapAll, inferOperands, inferOperands, node_map, h.isOperand, ht, ih]
    split <;> rfl

theorem inferArguments_map (h : Relabels r f) (hr : Set.InjOn r S) : ∀ {ts : List Tree},
    (∀ n ∈ preorderAll ts, n.id ∈ S) →
    inferArguments catalog (mapAll f ts) = Typed.relabelOperands r f (inferArguments catalog ts)
  | [], _ => rfl
  | mk group children :: rest, hts => by
    have hchildren : ∀ n ∈ preorderAll children, n.id ∈ S :=
      fun n hn => hts n (List.mem_append_left _ (List.mem_cons_of_mem _ hn))
    have hsequence := inferSequence_map_of h hr hchildren (inferOperands_map h hr hchildren)
    have ih := inferArguments_map h hr fun n hn => hts n (List.mem_append_right _ hn)
    rw [mapAll, map, inferArguments, inferArguments, hsequence, ih, Typed.recordAs_relabel h]
    rfl

end

end Tree

namespace Store

variable {store : Store} {r : String → String} {f : Node → Node}

/-- **Other identifiers are other identifiers in the type report.** -/
theorem inferTypes_map (h : Relabels r f) (hr : Set.InjOn r store.labels) (catalog : Catalog) :
    (store.map f).inferTypes catalog =
      ⟨(store.inferTypes catalog).issues.map (Issue.relabel r), (store.inferTypes catalog).type,
        relabelKeys r (store.inferTypes catalog).types⟩ := by
  have hforest : ∀ n ∈ Tree.preorderAll store.forest, n.id ∈ store.labels := by
    intro n hn
    obtain ⟨above, hclimbs⟩ := climbs_of_mem_preorder hn
    exact id_mem_labels hclimbs.mem
  have hsequence : Tree.inferSequence catalog (store.map f).forest =
      (Tree.inferSequence catalog store.forest).relabel r := by
    rw [forest_map h hr]
    exact Tree.inferSequence_map_of h hr hforest (Tree.inferOperands_map h hr hforest)
  have hkeys : ∀ key ∈ keysOf (Tree.inferSequence catalog store.forest).records,
      key ∈ store.labels := by
    intro key hkey
    obtain ⟨n, hn, rfl⟩ := List.mem_map.mp (Tree.keys_sequence_subset catalog store.forest hkey)
    exact hforest n hn
  rw [inferTypes, inferTypes, hsequence, eraseDups_ids_map h hr]
  refine congrArg (TypeReport.mk _ _) ?_
  rw [relabelKeys, List.map_map, List.map_map]
  refine List.map_congr_left fun id hid => ?_
  have hid := mem_labels_of_mem_ids (List.mem_eraseDups.mp hid)
  simp only [Function.comp_apply, Typed.relabel, lastRecord?_relabelKeys hr hkeys hid]

end Store

end Formulary
