/-
# Types are inferred from the roots down

Inference goes down from the roots as writing does, and comes to an end for the same reason, whatever the
parents of the nodes are (`Store.ends_inferRoots`). It visits each node that a root leads to once, operands
before the operators between them, and records a type for each of them and for no other node. All other nodes
of the store, among them those on circles and below them, are left with an unknown type
(`Store.ends_of_unique`).

Key definitions: `Store.inferNode`, `Store.inferRoots`.
Key theorems: `Store.Climbs.ends_infer`, `Store.ends_inferRoots`, `Store.ends_of_unique`.
-/
import Formulary.Proofs.Relabel.Reordered
import Formulary.Proofs.Store.Descent

namespace Formulary
namespace Store

open Relation (TransGen ReflTransGen)

section Infer

variable (catalog : Catalog) (store : Store)

/-- What is found about a sequence: first about each of its operands, then about its operators. -/
def inferInOrder (infer : Node → Option (Typed × List Node)) (nodes : List Node) :
    Option (Typed × List Node) := do
  let (operands, visited) ← inOrder infer (nodes.filter (·.isOperand))
  return (.sequence nodes operands, visited ++ nodes.filter (·.kind = .operator))

mutual

/-- What is found about a node, and the nodes that are visited for it; nothing if more than `limit` nodes are
nested. -/
def inferNode : Nat → Node → Option (Typed × List Node)
  | 0, _ => none
  | limit + 1, node =>
    match node.kind with
    | .value => some (Typed.recordAs node.id ⟨.number, [], []⟩, [node])
    | .reference => some (Typed.recordAs node.id (.reference catalog node), [node])
    | .operator => some (Typed.recordAs node.id ⟨.unknown, [], []⟩, [node])
    | .function => do
      let (arguments, visited) ← inOrder (inferArgument limit) (store.argumentsOf node.id)
      return (Typed.recordAs node.id (.call node arguments), node :: visited)
    | .group => do
      let children := store.childrenOf node.id
      let (t, visited) ← inferInOrder (inferNode limit) children
      let all := if children.isEmpty then { t with issues := .emptyGroup node.id :: t.issues } else t
      return (all.recordAs node.id, node :: visited)

/-- What is found about an argument. -/
def inferArgument : Nat → Node → Option (Typed × List Node)
  | 0, _ => none
  | limit + 1, group => do
    let (t, visited) ← inferInOrder (inferNode limit) (store.childrenOf group.id)
    return (t.recordAs group.id, group :: visited)

end

/-- What is found about a store, and the nodes that are visited for it; nothing if more than `limit` nodes are
nested. -/
def inferRoots (limit : Nat) : Option (Typed × List Node) :=
  inferInOrder (inferNode catalog store limit) store.roots

end Infer

variable {store : Store} {node : Node} {above : List Node}

/-! ### Inference comes to an end -/

theorem preorder_operator (hkind : node.kind = .operator) (depth : Nat) :
    (store.tree depth node).preorder = [node] := by
  cases depth with
  | zero => rfl
  | succ depth =>
    rw [tree, below, hkind]
    rfl

/-- The nodes of a sequence and below it are those of its operands, and its operators. -/
theorem perm_preorderAll_operands (nodes : List Node) :
    ((nodes.filter (·.isOperand)).flatMap (fun n => (store.tree store.size n).preorder) ++
      nodes.filter (·.kind = .operator)).Perm
        (Tree.preorderAll (nodes.map (store.tree store.size))) := by
  have hoperators : nodes.filter (·.kind = .operator) =
      (nodes.filter (!·.isOperand)).flatMap fun n => (store.tree store.size n).preorder := by
    have hsame : nodes.filter (·.kind = .operator) = nodes.filter (!·.isOperand) :=
      List.filter_congr fun n _ => by simp [Node.isOperand, Kind.isOperand]
    rw [hsame]
    have hsingle : ∀ n ∈ nodes.filter (!·.isOperand), (store.tree store.size n).preorder = [n] := by
      intro n hn
      refine preorder_operator ?_ _
      simpa [Node.isOperand, Kind.isOperand] using (List.mem_filter.mp hn).2
    rw [List.flatMap_congr hsingle]
    exact (List.flatMap_singleton' _).symm
  rw [hoperators, ← List.flatMap_append, preorderAll_map]
  exact (List.filter_append_perm _ nodes).flatMap_right _

/-- Something is found about a sequence if it is about its operands. -/
theorem ends_inferInOrder {catalog : Catalog} {infer : Node → Option (Typed × List Node)}
    {nodes : List Node} (h : ∀ n ∈ nodes, Ends List.Perm (infer n) (store.typed catalog n)
      (store.tree store.size n).preorder) :
    Ends List.Perm (inferInOrder infer nodes) (.ofSequence nodes (store.typed catalog))
      (Tree.preorderAll (nodes.map (store.tree store.size))) := by
  obtain ⟨visited, hstep, hvisited⟩ := ends_inOrder (List.Perm.refl [])
    (fun hfirst hrest => hfirst.append hrest) fun n hn => h n (List.mem_filter.mp hn).1
  refine ⟨visited ++ nodes.filter (·.kind = .operator), ?_, ?_⟩
  · rw [inferInOrder, hstep]
    rfl
  · exact (hvisited.append_right _).trans (perm_preorderAll_operands nodes)

/-- **Inference about a node comes to an end** where a way up leads from it to a root, if the limit leaves room
for all nodes that are not on that way. -/
theorem Climbs.ends_infer (hunique : (idsOf store.nodes).Nodup) (catalog : Catalog) {limit : Nat}
    (h : store.Climbs node above) (hlimit : store.size ≤ above.length + limit) :
    Ends List.Perm (inferNode catalog store limit node) (store.typed catalog node)
        (store.tree store.size node).preorder ∧
      (node.kind = .group → Ends List.Perm (inferArgument catalog store limit node)
        ((store.typedBelow catalog (some node.id)).recordAs node.id)
        (store.tree store.size node).preorder) := by
  induction limit generalizing node above with
  | zero => exact absurd (h.length_lt hunique) (Nat.not_lt.mpr hlimit)
  | succ limit ih =>
    have hbelow := fun child (hchild : child ∈ store.childrenOf node.id) =>
      ih (h.child hchild) (by rw [List.length_cons]; omega)
    have htree := tree_eq hunique h
    have hleaf : ∀ found, store.below node = [] → Tree.infer catalog (.mk node []) = found →
        Ends List.Perm (some (found, [node])) (store.typed catalog node)
          (store.tree store.size node).preorder := by
      rintro _ hnone rfl
      rw [typed, htree, hnone]
      exact ⟨[node], rfl, .refl _⟩
    rw [inferNode]
    cases hkind : node.kind with
    | reference =>
      exact ⟨hleaf _ (by rw [below, hkind]) (by rw [Tree.infer, hkind]), fun h => by cases h⟩
    | operator =>
      exact ⟨hleaf _ (by rw [below, hkind]) (by rw [Tree.infer, hkind]), fun h => by cases h⟩
    | value =>
      exact ⟨hleaf _ (by rw [below, hkind]) (by rw [Tree.infer, hkind]), fun h => by cases h⟩
    | function =>
      obtain ⟨visited, hfound, hvisited⟩ := ends_inOrder (List.Perm.refl [])
        (fun hfirst hrest => hfirst.append hrest) fun group (hgroup : group ∈ store.argumentsOf node.id) =>
          have hargument := mem_argumentsOf.mp hgroup
          (hbelow group hargument.1).2 (Node.isArgument_iff.mp hargument.2).1
      rw [typed_function catalog hunique h hkind, htree, below_of_function hkind, hfound]
      refine ⟨⟨node :: visited, rfl, ?_⟩, fun h => by cases h⟩
      rw [Tree.preorder, preorderAll_map]
      exact hvisited.cons node
    | group =>
      obtain ⟨visited, hfound, hvisited⟩ :=
        ends_inferInOrder fun child hchild => (hbelow child hchild).1
      rw [typed_group catalog hunique h hkind, htree, below_of_group hkind, inferArgument]
      simp only [hfound]
      exact ⟨⟨node :: visited, rfl, hvisited.cons node⟩, fun _ =>
        ⟨node :: visited, rfl, hvisited.cons node⟩⟩

/-- **Inference about a store comes to an end**, whatever its parents are, if the limit leaves room for all
nodes. -/
theorem ends_inferRoots (hunique : (idsOf store.nodes).Nodup) (catalog : Catalog) {limit : Nat}
    (hlimit : store.size ≤ limit) :
    Ends List.Perm (inferRoots catalog store limit) (Tree.inferSequence catalog store.forest)
      store.preorder := by
  rw [forest, inferSequence_tree]
  exact ends_inferInOrder fun root hroot =>
    ((climbs_root hroot).ends_infer hunique catalog (by simpa using hlimit)).1

/-! ### Every store -/

/-- **Writing a store and inferring its types come to an end**, whatever the parents of its nodes are: missing
ones, leaves, or nodes that are below them. At no time more nodes are nested than there are, no node is visited
twice, and none that is on a circle or below one. Inference records a type for each node that it visits, and
the report has a type for each node of the store and nothing else. -/
theorem ends_of_unique (hunique : (idsOf store.nodes).Nodup) (catalog : Catalog) (placeholder : String)
    {limit : Nat} (hlimit : store.size ≤ limit) :
    ∃ (written inferred : List Node) (found : Typed),
      writeRoots catalog placeholder store limit = some (store.canonical catalog placeholder, written) ∧
      inferRoots catalog store limit = some (found, inferred) ∧
      (idsOf written).Nodup ∧ (idsOf inferred).Nodup ∧
      (∀ n ∈ written ++ inferred, n ∈ store.nodes ∧
        ∀ id, ReflTransGen store.ParentOf n.id id → ¬TransGen store.ParentOf id id) ∧
      (keysOf found.records).Perm (idsOf inferred) ∧
      store.inferTypes catalog = ⟨found.issues, found.type,
        store.nodes.map fun n => (n.id, (lastRecord? found.records n.id).getD .unknown)⟩ := by
  obtain ⟨written, hwrite, hwritten⟩ := ends_writeRoots hunique catalog placeholder hlimit
  obtain ⟨inferred, hinfer, hinferred⟩ := ends_inferRoots hunique catalog hlimit
  have hnodup := nodup_preorder hunique
  refine ⟨written, inferred, _, hwrite, hinfer, hnodup.sublist (hwritten.map _),
    (hinferred.map _).nodup_iff.mpr hnodup, fun n hn => ?visited, ?keys, ?report⟩
  case visited =>
    have hmem : n ∈ store.preorder := by
      rcases List.mem_append.mp hn with hn | hn
      · exact hwritten.subset hn
      · exact hinferred.mem_iff.mp hn
    obtain ⟨above, hclimbs⟩ := climbs_of_mem_preorder hmem
    exact ⟨hclimbs.mem, fun id hup => hclimbs.not_circling hunique hup⟩
  case keys => exact (Tree.keys_sequence catalog (bareLeaves_forest store)).trans (hinferred.map _).symm
  case report =>
    have hids : (store.nodes.map (·.id)).eraseDups = store.nodes.map (·.id) := eraseDups_of_nodup hunique
    rw [inferTypes, hids, List.map_map]
    rfl

/-- A value in a group, a value below a value, a group below a missing one, a group that is its own parent,
and a call below two groups that are below each other. -/
def tangled : Store :=
  ⟨[.ofGroup "a" (some "b") none, .ofGroup "g" none none, .ofValue "v" (some "g") (some (.integer 1)),
    .ofValue "w" (some "v") none, .ofGroup "o" (some "missing") none, .ofGroup "s" (some "s") none,
    .ofGroup "b" (some "a") none, .ofFunction "f" (some "b") (some "abs")]⟩

theorem ends_tangled :
    (idsOf tangled.nodes).Nodup ∧ ∃ written inferred found,
      writeRoots [] "?" tangled 8 = some ("(1)", written) ∧ inferRoots [] tangled 8 = some (found, inferred) ∧
        (idsOf written).Nodup ∧ (keysOf found.records).Perm (idsOf inferred) ∧
          (tangled.inferTypes []).types.map Prod.fst = ["a", "g", "v", "w", "o", "s", "b", "f"] := by
  have hunique : (idsOf tangled.nodes).Nodup := by decide
  obtain ⟨written, inferred, found, hwrite, hinfer, hwritten, -, -, hkeys, hreport⟩ :=
    ends_of_unique hunique [] "?" (Nat.le_refl tangled.size)
  have htext : tangled.canonical [] "?" = "(1)" := by decide +kernel
  rw [htext] at hwrite
  refine ⟨hunique, written, inferred, found, hwrite, hinfer, hwritten, hkeys, ?_⟩
  rw [hreport]
  rfl

/-- From a group that is its own parent a descent would go on for ever. -/
example : writeNode [] "?" tangled 20 (.ofGroup "s" (some "s") none) = none := by decide

end Store
end Formulary
