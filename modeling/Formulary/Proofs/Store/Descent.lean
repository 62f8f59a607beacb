/-
# Going down from the roots

A store is written by going down from each node to those below it, without a look at what was visited
before. Where parents run in a circle that would go on for ever, if it ever came there. It starts at the
roots, and from a root only those nodes are reached from which a chain of parents leads back up to it
(`Store.Climbs`). None of these is on a circle or below one (`Store.Climbs.not_circling`), and as no node is
twice on such a chain, the number of nodes bounds how deep they are nested. A descent that goes only so deep
therefore comes to an end, writes the canonical text and visits no node twice (`Store.ends_writeRoots`).

Key definitions: `inOrder`, `Ends`, `Store.writeNode`, `Store.writeRoots`.
Key theorems: `Store.Climbs.not_circling`, `Store.Climbs.ends_write`, `Store.ends_writeRoots`.
-/
import Formulary.Canonical
import Formulary.Proofs.Typing.Enclosed

namespace Formulary

open Relation (TransGen ReflTransGen)

/-- What comes of each of a number of nodes, one after the other, and the nodes that are visited for it;
nothing if some step comes to nothing. -/
def inOrder {α : Type} (step : Node → Option (α × List Node)) :
    List Node → Option (List (Node × α) × List Node)
  | [] => some ([], [])
  | node :: rest => do
    let (found, visited) ← step node
    let (others, later) ← inOrder step rest
    return ((node, found) :: others, visited ++ later)

/-- Whether something comes to an end and finds what it is to find, with visits to nodes that are, up to a
relation, the given ones. -/
def Ends {α : Type} (R : List Node → List Node → Prop) (outcome : Option (α × List Node)) (found : α)
    (nodes : List Node) : Prop :=
  ∃ visited, outcome = some (found, visited) ∧ R visited nodes

/-- Steps that come to an end do so one after the other. -/
theorem ends_inOrder {α : Type} {step : Node → Option (α × List Node)} {found : Node → α}
    {below : Node → List Node} {R : List Node → List Node → Prop} (hnil : R [] [])
    (happend : ∀ {a b c d}, R a b → R c d → R (a ++ c) (b ++ d)) :
    ∀ {nodes : List Node}, (∀ n ∈ nodes, Ends R (step n) (found n) (below n)) →
      Ends R (inOrder step nodes) (nodes.map fun n => (n, found n)) (nodes.flatMap below)
  | [], _ => ⟨[], rfl, hnil⟩
  | node :: rest, h => by
    obtain ⟨visited, hstep, hvisited⟩ := h node List.mem_cons_self
    obtain ⟨later, hrest, hlater⟩ :=
      ends_inOrder hnil happend fun n hn => h n (List.mem_cons_of_mem _ hn)
    refine ⟨visited ++ later, ?_, happend hvisited hlater⟩
    rw [inOrder, hstep, hrest]
    rfl

namespace Store

/-! ### Writing -/

section Write

variable (catalog : Catalog) (placeholder : String) (store : Store)

/-- The text of a sequence. -/
def writeSequence (write : Node → Option (List Char × List Node)) (nodes : List Node) :
    Option (List Char × List Node) := do
  let (texts, visited) ← inOrder write (nodes.filter (!·.isArgument))
  return (joined [' '] ((texts.map Prod.snd).filter (!·.isEmpty)), visited)

/-- The texts of arguments from a slot on, given argument groups in the order of their slots. -/
def writeArguments (write : Node → Option (List Char × List Node)) (slot : Int) :
    List Node → Option (List (List Char) × List Node)
  | [] => some ([], [])
  | group :: rest =>
    let own := group.slot.getD 0
    if own < slot then writeArguments write slot rest
    else do
      let (text, visited) ← write group
      let (texts, later) ← writeArguments write (own + 1) rest
      return (List.replicate (own - slot).toNat [] ++ text :: texts, visited ++ later)

mutual

/-- The text of a node, and the nodes that are visited for it; nothing if more than `limit` nodes are nested. -/
def writeNode : Nat → Node → Option (List Char × List Node)
  | 0, _ => none
  | limit + 1, node =>
    match node.kind with
    | .reference => some (referenceText catalog placeholder node.reference, [node])
    | .operator => some ((node.operator.getD "").toList, [node])
    | .value => some (numberText node.value, [node])
    | .function => do
      let (texts, visited) ← writeArguments (writeArgument limit) 0 (store.argumentsOf node.id)
      return ((node.function.getD "").toList ++ '(' :: joined [',', ' '] texts ++ [')'], node :: visited)
    | .group => do
      let (text, visited) ← writeSequence (writeNode limit) (store.childrenOf node.id)
      return ('(' :: text ++ [')'], node :: visited)

/-- The text of an argument. -/
def writeArgument : Nat → Node → Option (List Char × List Node)
  | 0, _ => none
  | limit + 1, group => do
    let (text, visited) ← writeSequence (writeNode limit) (store.childrenOf group.id)
    return (text, group :: visited)

end

/-- The text of a store, and the nodes that are visited for it; nothing if more than `limit` nodes are
nested. -/
def writeRoots (limit : Nat) : Option (String × List Node) := do
  let (text, visited) ← writeSequence (writeNode catalog placeholder store limit) store.roots
  return (String.ofList text, visited)

end Write

variable {store : Store} {catalog : Catalog} {placeholder : String} {node : Node} {above : List Node}

/-! ### No circles above -/

/-- The parent of a node on a way up is the next node on it. -/
theorem Climbs.exists_of_parentOf (hunique : (idsOf store.nodes).Nodup) {id : String}
    (h : store.Climbs node above) (hparent : store.ParentOf node.id id) :
    ∃ owner rest, owner.id = id ∧ store.Climbs owner rest ∧ rest.length < above.length := by
  obtain ⟨n, hn, hid, hparent⟩ := hparent
  obtain rfl := List.inj_on_of_nodup_map hunique hn h.mem hid
  cases above with
  | nil =>
    rw [h.2] at hparent
    cases hparent
  | cons owner rest =>
    exact ⟨owner, rest, Option.some.inj (h.2.1.symm.trans hparent), h.2.2, Nat.lt_succ_self _⟩

/-- Whatever is above a node on a way up is on a shorter way up. -/
theorem Climbs.exists_of_transGen (hunique : (idsOf store.nodes).Nodup) {id : String}
    (h : store.Climbs node above) (hup : TransGen store.ParentOf node.id id) :
    ∃ owner rest, owner.id = id ∧ store.Climbs owner rest ∧ rest.length < above.length := by
  induction hup with
  | single hstep => exact h.exists_of_parentOf hunique hstep
  | tail _ hstep ih =>
    obtain ⟨owner, rest, rfl, howner, hlt⟩ := ih
    obtain ⟨next, later, hid, hnext, hshorter⟩ := howner.exists_of_parentOf hunique hstep
    exact ⟨next, later, hid, hnext, hshorter.trans hlt⟩

/-- **A node from which parents lead to a root is not on a circle**, and not below one. -/
theorem Climbs.not_circling (hunique : (idsOf store.nodes).Nodup) (h : store.Climbs node above)
    {id : String} (hup : ReflTransGen store.ParentOf node.id id) : ¬TransGen store.ParentOf id id := by
  have hself : ∀ {n : Node} {rest : List Node}, store.Climbs n rest →
      ¬TransGen store.ParentOf n.id n.id := by
    intro n rest hn hcircle
    obtain ⟨owner, later, hid, howner, hlt⟩ := hn.exists_of_transGen hunique hcircle
    obtain rfl := List.inj_on_of_nodup_map hunique howner.mem hn.mem hid
    rw [howner.unique hunique hn] at hlt
    exact Nat.lt_irrefl _ hlt
  rcases Relation.reflTransGen_iff_eq_or_transGen.mp hup with rfl | hup
  · exact hself h
  · obtain ⟨owner, rest, rfl, howner, -⟩ := h.exists_of_transGen hunique hup
    exact hself howner

/-! ### Writing comes to an end -/

/-- The terms of a sequence are the texts of its nodes, but for argument groups. -/
theorem parts_map_tree (nodes : List Node) :
    Tree.parts catalog placeholder (nodes.map (store.tree store.size)) =
      (nodes.filter (!·.isArgument)).map fun n =>
        Tree.text catalog placeholder (store.tree store.size n) := by
  induction nodes with
  | nil => rfl
  | cons node rest ih =>
    rw [List.map_cons, Tree.parts, node_tree, ih, List.filter_cons]
    cases node.isArgument <;> rfl

/-- The nodes of trees, tree by tree. -/
theorem preorderAll_map (f : Node → Tree) (nodes : List Node) :
    Tree.preorderAll (nodes.map f) = nodes.flatMap fun n => (f n).preorder := by
  induction nodes with
  | nil => rfl
  | cons node rest ih => rw [List.map_cons, Tree.preorderAll, ih, List.flatMap_cons]

/-- A sequence is written if its nodes are. -/
theorem ends_writeSequence {write : Node → Option (List Char × List Node)} {nodes : List Node}
    (h : ∀ n ∈ nodes, Ends List.Sublist (write n)
      (Tree.text catalog placeholder (store.tree store.size n)) (store.tree store.size n).preorder) :
    Ends List.Sublist (writeSequence write nodes)
      (Tree.sequenceText catalog placeholder (nodes.map (store.tree store.size)))
      (Tree.preorderAll (nodes.map (store.tree store.size))) := by
  obtain ⟨visited, hstep, hvisited⟩ := ends_inOrder (List.Sublist.refl [])
    (fun hfirst hrest => hfirst.append hrest) fun n hn => h n (List.mem_filter.mp hn).1
  refine ⟨visited, ?_, ?_⟩
  · rw [writeSequence, hstep, Tree.sequenceText, parts_map_tree]
    simp [Function.comp_def]
  · rw [preorderAll_map]
    exact hvisited.trans (List.filter_sublist.flatMap _)

/-- Arguments are written if their groups are. -/
theorem ends_writeArguments {write : Node → Option (List Char × List Node)} {groups : List Node}
    (h : ∀ n ∈ groups, Ends List.Sublist (write n)
      (Tree.sequenceText catalog placeholder (store.tree store.size n).children)
      (store.tree store.size n).preorder) (slot : Int) :
    Ends List.Sublist (writeArguments write slot groups)
      (Tree.argumentTexts catalog placeholder slot (groups.map (store.tree store.size)))
      (Tree.preorderAll (groups.map (store.tree store.size))) := by
  induction groups generalizing slot with
  | nil => exact ⟨[], rfl, .slnil⟩
  | cons group rest ih =>
    obtain ⟨visited, hstep, hvisited⟩ := h group List.mem_cons_self
    have hrest := ih fun n hn => h n (List.mem_cons_of_mem _ hn)
    rw [List.map_cons]
    have hgroup : (store.tree store.size group).node = group := node_tree _ _
    generalize store.tree store.size group = t at hstep hvisited hgroup ⊢
    obtain ⟨top, children⟩ := t
    obtain rfl : top = group := hgroup
    rw [writeArguments, Tree.argumentTexts, Tree.preorderAll]
    by_cases hslot : top.slot.getD 0 < slot
    · obtain ⟨later, htexts, hlater⟩ := hrest slot
      rw [if_pos hslot, if_pos hslot]
      exact ⟨later, htexts, hlater.trans (List.sublist_append_right _ _)⟩
    · obtain ⟨later, htexts, hlater⟩ := hrest (top.slot.getD 0 + 1)
      rw [if_neg hslot, if_neg hslot, hstep, htexts]
      exact ⟨visited ++ later, rfl, hvisited.append hlater⟩

/-- **Writing a node comes to an end** where a way up leads from it to a root, if the limit leaves room for all
nodes that are not on that way. Each node on the way down is on the way up from the next. -/
theorem Climbs.ends_write (hunique : (idsOf store.nodes).Nodup) (catalog : Catalog)
    (placeholder : String) {limit : Nat} (h : store.Climbs node above)
    (hlimit : store.size ≤ above.length + limit) :
    Ends List.Sublist (writeNode catalog placeholder store limit node)
        (Tree.text catalog placeholder (store.tree store.size node)) (store.tree store.size node).preorder ∧
      (node.kind = .group → Ends List.Sublist (writeArgument catalog placeholder store limit node)
        (Tree.sequenceText catalog placeholder (store.tree store.size node).children)
        (store.tree store.size node).preorder) := by
  induction limit generalizing node above with
  | zero => exact absurd (h.length_lt hunique) (Nat.not_lt.mpr hlimit)
  | succ limit ih =>
    have hbelow := fun child (hchild : child ∈ store.childrenOf node.id) =>
      ih (h.child hchild) (by rw [List.length_cons]; omega)
    have hleaf : ∀ (text : List Char) nodes, Ends List.Sublist (some (text, [node])) text (node :: nodes) :=
      fun text nodes => ⟨[node], rfl, (List.nil_sublist nodes).cons_cons node⟩
    rw [tree_eq hunique h, Tree.preorder, Tree.text, writeNode]
    cases hkind : node.kind with
    | reference => exact ⟨hleaf _ _, fun h => by cases h⟩
    | operator => exact ⟨hleaf _ _, fun h => by cases h⟩
    | value => exact ⟨hleaf _ _, fun h => by cases h⟩
    | function =>
      obtain ⟨visited, htexts, hvisited⟩ := ends_writeArguments (fun group hgroup =>
        have hargument := mem_argumentsOf.mp hgroup
        (hbelow group hargument.1).2 (Node.isArgument_iff.mp hargument.2).1) 0
      rw [below_of_function hkind, htexts]
      exact ⟨⟨node :: visited, rfl, hvisited.cons_cons node⟩, fun h => by cases h⟩
    | group =>
      obtain ⟨visited, htext, hvisited⟩ :=
        ends_writeSequence fun child hchild => (hbelow child hchild).1
      rw [below_of_group hkind, writeArgument, htext]
      exact ⟨⟨node :: visited, rfl, hvisited.cons_cons node⟩, fun _ =>
        ⟨node :: visited, rfl, hvisited.cons_cons node⟩⟩

/-- **Writing a store comes to an end**, whatever its parents are, if the limit leaves room for all nodes. It
writes the canonical text. -/
theorem ends_writeRoots (hunique : (idsOf store.nodes).Nodup) (catalog : Catalog) (placeholder : String)
    {limit : Nat} (hlimit : store.size ≤ limit) :
    Ends List.Sublist (writeRoots catalog placeholder store limit)
      (store.canonical catalog placeholder) store.preorder := by
  obtain ⟨visited, htext, hvisited⟩ := ends_writeSequence fun root hroot =>
    ((climbs_root hroot).ends_write hunique catalog placeholder (by simpa using hlimit)).1
  refine ⟨visited, ?_, hvisited⟩
  rw [writeRoots, htext]
  rfl

end Store
end Formulary
