/-
# The way up in the list of a forest

In the list of a linked forest each node stands behind its parent (`parent_before`), so that no chain of
parents runs in a circle (`acyclic_preorder`). The nodes above a node, nearest first, are its ancestors
(`ancestors_of_mem_lineages`).

Key definitions: `Tree.lineagesAll`, `Store.Climbs`.
Key theorems: `Store.parent_before`, `Store.acyclic_preorder`, `Store.ancestors_of_mem_lineages`.
-/
import Formulary.Proofs.Store.Ancestors

namespace Formulary
namespace Tree

/-! ### Parents stand before their children -/

mutual

theorem parent_before_tree {parent : Option String} {n : Node} {before rest : List Node} :
    ∀ {t : Tree}, t.Linked parent → t.preorder = before ++ n :: rest →
    n.parent = parent ∨ ∃ owner ∈ before, n.parent = some owner.id
  | mk node children, h, hsplit => by
    rw [preorder] at hsplit
    rcases List.cons_eq_append_iff.mp hsplit with ⟨rfl, heq⟩ | ⟨others, rfl, hrest⟩
    · obtain ⟨rfl, -⟩ := List.cons.inj heq
      exact .inl h.1
    · rcases parent_before_forest h.2 hrest with hp | ⟨owner, howner, hp⟩
      · exact .inr ⟨node, List.mem_cons_self, hp⟩
      · exact .inr ⟨owner, List.mem_cons_of_mem _ howner, hp⟩

/-- In the list of a linked forest a node stands behind its parent. -/
theorem parent_before_forest {parent : Option String} {n : Node} {before rest : List Node} :
    ∀ {ts : List Tree}, LinkedAll parent ts → preorderAll ts = before ++ n :: rest →
    n.parent = parent ∨ ∃ owner ∈ before, n.parent = some owner.id
  | [], _, hsplit => by
    cases before with
    | nil => cases hsplit
    | cons => cases hsplit
  | t :: ts, h, hsplit => by
    rw [preorderAll] at hsplit
    rcases List.append_eq_append_iff.mp hsplit with ⟨others, rfl, hrest⟩ | ⟨others, htree, hrest⟩
    · -- The node is behind the first tree.
      refine (parent_before_forest h.2 hrest).imp_right fun ⟨owner, howner, hp⟩ => ?_
      exact ⟨owner, List.mem_append_right _ howner, hp⟩
    · rcases List.cons_eq_append_iff.mp hrest with ⟨rfl, hnext⟩ | ⟨last, rfl, -⟩
      · have hnone : preorderAll ts = [] ++ n :: rest := hnext
        refine (parent_before_forest h.2 hnone).imp_right fun ⟨owner, howner, hp⟩ => ?_
        cases howner
      · exact parent_before_tree h.1 htree

end

/-! ### Lineages -/

mutual

/-- The nodes of a tree in reading order, each with the nodes above it, nearest first. -/
def lineages (above : List Node) : Tree → List (Node × List Node)
  | mk node children => (node, above) :: lineagesAll (node :: above) children

/-- The nodes of trees in reading order, each with the nodes above it. -/
def lineagesAll (above : List Node) : List Tree → List (Node × List Node)
  | [] => []
  | tree :: rest => tree.lineages above ++ lineagesAll above rest

end

mutual

theorem map_fst_lineages (above : List Node) : ∀ t : Tree,
    (t.lineages above).map Prod.fst = t.preorder
  | mk node children => congrArg (node :: ·) (map_fst_lineagesAll (node :: above) children)

theorem map_fst_lineagesAll (above : List Node) : ∀ ts : List Tree,
    (lineagesAll above ts).map Prod.fst = preorderAll ts
  | [] => rfl
  | t :: rest => by
    rw [lineagesAll, preorderAll, List.map_append, map_fst_lineages above t,
      map_fst_lineagesAll above rest]

end

mutual

theorem suffix_of_mem_lineages {n : Node} {found above : List Node} : ∀ {t : Tree},
    (n, found) ∈ t.lineages above → t.node :: above <:+ n :: found
  | mk node children, h => by
    rcases List.mem_cons.mp h with heq | h
    · obtain ⟨rfl, rfl⟩ := Prod.mk.inj heq
      exact List.suffix_rfl
    · obtain ⟨u, -, hu⟩ := suffix_of_mem_lineagesAll h
      exact (List.suffix_cons u.node (node :: above)).trans hu

/-- The way up from a node in a forest leads through the top of one of the trees. -/
theorem suffix_of_mem_lineagesAll {n : Node} {found above : List Node} : ∀ {ts : List Tree},
    (n, found) ∈ lineagesAll above ts → ∃ u ∈ ts, u.node :: above <:+ n :: found
  | t :: rest, h => by
    rcases List.mem_append.mp h with h | h
    · exact ⟨t, List.mem_cons_self, suffix_of_mem_lineages h⟩
    · obtain ⟨u, hu, hsuffix⟩ := suffix_of_mem_lineagesAll h
      exact ⟨u, List.mem_cons_of_mem _ hu, hsuffix⟩

end

mutual

theorem nodup_lineages {above : List Node} : ∀ {t : Tree},
    (∀ s ∈ t.subtrees, (s.children.map node).Nodup) → (t.lineages above).Nodup
  | mk node children, h => by
    have hchildren := h (mk node children) List.mem_cons_self
    refine List.nodup_cons.mpr ⟨fun hmem => ?_,
      nodup_lineagesAll hchildren fun s hs => h s (List.mem_cons_of_mem _ hs)⟩
    obtain ⟨u, -, hsuffix⟩ := suffix_of_mem_lineagesAll hmem
    exact absurd hsuffix.length_le (Nat.not_succ_le_self _)

/-- Where no node has a child twice, no node is in the forest twice with the same nodes above it. -/
theorem nodup_lineagesAll {above : List Node} : ∀ {ts : List Tree}, (ts.map node).Nodup →
    (∀ s ∈ subtreesAll ts, (s.children.map node).Nodup) → (lineagesAll above ts).Nodup
  | [], _, _ => List.nodup_nil
  | t :: rest, htop, h => by
    obtain ⟨hfirst, htop⟩ := List.nodup_cons.mp htop
    refine List.nodup_append.mpr ⟨nodup_lineages fun s hs => h s (List.mem_append_left _ hs),
      nodup_lineagesAll htop fun s hs => h s (List.mem_append_right _ hs), ?_⟩
    rintro ⟨n, found⟩ hn _ hother rfl
    obtain ⟨u, hu, hsuffix⟩ := suffix_of_mem_lineagesAll hother
    -- Both ways up end in the same number of nodes, so that the trees have the same top.
    have heq : t.node :: above = u.node :: above :=
      (List.suffix_of_suffix_length_le (suffix_of_mem_lineages hn) hsuffix (Nat.le_refl _)).eq_of_length rfl
    rw [(List.cons.inj heq).1] at hfirst
    exact hfirst (List.mem_map_of_mem hu)

end

end Tree

namespace Store

open Formulary.Tree

variable {store : Store} {ts : List Tree}

/-- Whether parents lead from a node through the nodes `above`, nearest first, to a root. -/
def Climbs (store : Store) : Node → List Node → Prop
  | node, [] => node ∈ store.nodes ∧ node.parent = none
  | node, owner :: above =>
    node ∈ store.nodes ∧ node.parent = some owner.id ∧ store.Climbs owner above

theorem Climbs.mem {node : Node} : ∀ {above : List Node}, store.Climbs node above →
    node ∈ store.nodes
  | [], h => h.1
  | _ :: _, h => h.1

/-- A node below others climbs if the nearest of them does. -/
theorem climbs_of_parent {node : Node} (hnode : node ∈ store.nodes) : ∀ {above : List Node},
    node.parent = above.head?.map (·.id) →
    (∀ owner rest, above = owner :: rest → store.Climbs owner rest) → store.Climbs node above
  | [], hparent, _ => ⟨hnode, hparent⟩
  | owner :: rest, hparent, habove => ⟨hnode, hparent, habove owner rest rfl⟩

mutual

theorem climbs_of_mem_lineages {n : Node} {found above : List Node} : ∀ {t : Tree},
    t.Linked (above.head?.map (·.id)) → t.preorder ⊆ store.nodes →
    (∀ owner rest, above = owner :: rest → store.Climbs owner rest) →
    (n, found) ∈ t.lineages above → store.Climbs n found
  | .mk node children, h, hsub, habove, hn => by
    have hnode : store.Climbs node above := climbs_of_parent (hsub List.mem_cons_self) h.1 habove
    rcases List.mem_cons.mp hn with heq | hn
    · obtain ⟨rfl, rfl⟩ := Prod.mk.inj heq
      exact hnode
    · refine @climbs_of_mem_lineagesAll n found (node :: above) children h.2
        (fun m hm => hsub (List.mem_cons_of_mem _ hm)) (fun owner rest heq => ?_) hn
      obtain ⟨rfl, rfl⟩ := List.cons.inj heq
      exact hnode

theorem climbs_of_mem_lineagesAll {n : Node} {found above : List Node} : ∀ {ts : List Tree},
    LinkedAll (above.head?.map (·.id)) ts → preorderAll ts ⊆ store.nodes →
    (∀ owner rest, above = owner :: rest → store.Climbs owner rest) →
    (n, found) ∈ lineagesAll above ts → store.Climbs n found
  | t :: rest, h, hsub, habove, hn => by
    rcases List.mem_append.mp hn with hn | hn
    · exact climbs_of_mem_lineages h.1 (fun m hm => hsub (List.mem_append_left _ hm)) habove hn
    · exact climbs_of_mem_lineagesAll h.2 (fun m hm => hsub (List.mem_append_right _ hm)) habove hn

end

theorem Climbs.exists_of_mem {n : Node} : ∀ {node : Node} {above : List Node},
    store.Climbs node above → n ∈ above → ∃ rest, store.Climbs n rest ∧ rest.length < above.length
  | node, owner :: above, h, hn => by
    rcases List.mem_cons.mp hn with rfl | hn
    · exact ⟨above, h.2.2, Nat.lt_succ_self _⟩
    · obtain ⟨rest, hrest, hlt⟩ := h.2.2.exists_of_mem hn
      exact ⟨rest, hrest, Nat.lt_succ_of_lt hlt⟩

/-- There is at most one way up from a node. -/
theorem Climbs.unique (hunique : (idsOf store.nodes).Nodup) : ∀ {node : Node}
    {above other : List Node}, store.Climbs node above → store.Climbs node other → above = other
  | _, [], [], _, _ => rfl
  | _, [], _ :: _, h, hother => by cases h.2.symm.trans hother.2.1
  | _, _ :: _, [], h, hother => by cases hother.2.symm.trans h.2.1
  | _, owner :: above, next :: other, h, hother => by
    have hid : owner.id = next.id := Option.some.inj (h.2.1.symm.trans hother.2.1)
    obtain rfl := List.inj_on_of_nodup_map hunique h.2.2.mem hother.2.2.mem hid
    rw [h.2.2.unique hunique hother.2.2]

/-- On the way up no identifier is met twice: from there it would go on in a circle. -/
theorem Climbs.nodup (hunique : (idsOf store.nodes).Nodup) :
    ∀ {node : Node} {above : List Node}, store.Climbs node above → (idsOf (node :: above)).Nodup
  | _, [], _ => List.nodup_singleton _
  | node, next :: above, h => by
    refine List.nodup_cons.mpr ⟨fun hmem => ?_, h.2.2.nodup hunique⟩
    obtain ⟨owner, howner, hid⟩ := List.mem_map.mp hmem
    obtain ⟨rest, hrest, hlt⟩ := h.exists_of_mem howner
    obtain rfl := List.inj_on_of_nodup_map hunique hrest.mem h.1 hid
    rw [hrest.unique hunique h] at hlt
    exact Nat.lt_irrefl _ hlt

theorem Climbs.subset : ∀ {node : Node} {above : List Node}, store.Climbs node above →
    above ⊆ store.nodes
  | _, [], _ => List.nil_subset _
  | _, _ :: _, h => List.cons_subset.mpr ⟨h.2.2.mem, h.2.2.subset⟩

theorem ancestorsFrom_of_climbs (hunique : (idsOf store.nodes).Nodup) :
    ∀ {node : Node} {above : List Node} {fuel : Nat} {seen : List String},
    store.Climbs node above → above.length < fuel →
    (∀ owner ∈ above, owner.id ∉ seen) → (idsOf above).Nodup →
    store.ancestorsFrom fuel seen node.id = above
  | node, [], fuel + 1, seen, ⟨hnode, hparent⟩, _, _, _ => by
    rw [ancestorsFrom, get?_of_unique hunique hnode, Option.bind_some, hparent]
  | node, owner :: above, fuel + 1, seen, ⟨hnode, hparent, howner⟩, hfuel, hseen, hnodup => by
    obtain ⟨hfresh, hnodup⟩ := List.nodup_cons.mp hnodup
    have hunseen : ¬seen.contains owner.id = true := by
      simpa using hseen owner List.mem_cons_self
    have hothers : ∀ next ∈ above, next.id ∉ owner.id :: seen := by
      intro next hnext hmem
      rcases List.mem_cons.mp hmem with heq | hmem
      · exact hfresh (List.mem_map.mpr ⟨next, hnext, heq⟩)
      · exact hseen next (List.mem_cons_of_mem _ hnext) hmem
    have hrest := ancestorsFrom_of_climbs hunique howner (Nat.lt_of_succ_lt_succ hfuel) hothers hnodup
    rw [ancestorsFrom, get?_of_unique hunique hnode, Option.bind_some, hparent]
    simp only [if_neg hunseen, get?_of_unique hunique howner.mem, hrest]

/-- The nodes on the way up to a root are the ancestors. -/
theorem ancestors_of_climbs (hunique : (idsOf store.nodes).Nodup) {node : Node}
    {above : List Node} (h : store.Climbs node above) : store.ancestors node.id = above := by
  obtain ⟨hfresh, hnodup⟩ := List.nodup_cons.mp (h.nodup hunique)
  have hsubperm : above.Subperm store.nodes := (List.Nodup.of_map _ hnodup).subperm h.subset
  refine ancestorsFrom_of_climbs hunique h (Nat.lt_succ_of_le hsubperm.length_le) ?_ hnodup
  exact fun owner howner hmem =>
    hfresh (List.mem_map.mpr ⟨owner, howner, List.mem_singleton.mp hmem⟩)

/-! ### The list of a forest -/

/-- **In the list of a linked forest a node stands behind its parent.** -/
theorem parent_before (h : LinkedAll none ts) {before rest : List Node} {node : Node}
    (hsplit : preorderAll ts = before ++ node :: rest) {parent : String}
    (hparent : node.parent = some parent) : ∃ owner ∈ before, owner.id = parent := by
  rcases parent_before_forest h hsplit with hnone | ⟨owner, howner, hp⟩
  · rw [hparent] at hnone
    cases hnone
  · exact ⟨owner, howner, Option.some.inj (hp.symm.trans hparent)⟩

/-- **In the list of a linked forest no chain of parents runs in a circle.** -/
theorem acyclic_preorder (h : LinkedAll none ts) (hunique : (idsOf (preorderAll ts)).Nodup)
    (id : String) : ¬Relation.TransGen (Store.mk (preorderAll ts)).ParentOf id id := by
  refine acyclic_of_measure (fun id => (idsOf (preorderAll ts)).idxOf id)
    (fun node hnode parent hparent => ?_) id
  obtain ⟨before, rest, hsplit⟩ := List.append_of_mem hnode
  have hsplit : preorderAll ts = before ++ node :: rest := hsplit
  obtain ⟨owner, howner, rfl⟩ := parent_before h hsplit hparent
  have hmem : owner.id ∈ idsOf before := List.mem_map_of_mem howner
  rw [hsplit, idsOf, List.map_append] at hunique ⊢
  have hfresh : node.id ∉ idsOf before := fun hmem =>
    (List.nodup_append.mp hunique).2.2 _ hmem _ List.mem_cons_self rfl
  calc (idsOf before ++ idsOf (node :: rest)).idxOf owner.id
      = (idsOf before).idxOf owner.id := List.idxOf_append_of_mem hmem
    _ < (idsOf before).length := List.idxOf_lt_length_of_mem hmem
    _ ≤ (idsOf before ++ idsOf (node :: rest)).idxOf node.id := by
      rw [List.idxOf_append_of_notMem hfresh]
      exact Nat.le_add_right _ _

/-- **The ancestors of a node in the list of a forest are the nodes above it.** -/
theorem ancestors_of_mem_lineages (h : LinkedAll none ts)
    (hunique : (idsOf (preorderAll ts)).Nodup) {node : Node} {above : List Node}
    (hmem : (node, above) ∈ lineagesAll [] ts) :
    (Store.mk (preorderAll ts)).ancestors node.id = above := by
  refine ancestors_of_climbs hunique ?_
  exact @climbs_of_mem_lineagesAll _ _ _ [] _ h (List.Subset.refl _) (fun _ _ heq => by cases heq) hmem

end Store
end Formulary
