/-
# Siblings in a group of their own

The first of the nodes with one parent may be moved below a new plain group that takes their place. The
other nodes keep their siblings, and the nodes that are moved keep theirs among each other
(`Store.encloses_enclose`). Every way up to a root stays one, at most with the new group in it
(`Store.Encloses.climbs`).

Key definitions: `Store.siblings`, `Store.enclose`, `Store.Encloses`, `Store.Way`.
Key theorems: `Store.encloses_enclose`, `Store.Encloses.climbs`.
-/
import Formulary.Proofs.Store.Rooted

namespace Formulary

/-- A node, below the one with the given identifier if it is among the nodes `front`. -/
def Node.moveInto (front : List Node) (id : String) (node : Node) : Node :=
  { node with parent := if node ∈ front then some id else node.parent }

@[simp] theorem Node.id_moveInto (front : List Node) (id : String) (node : Node) :
    (node.moveInto front id).id = node.id := rfl

theorem Node.moveInto_of_notMem {front : List Node} {id : String} {node : Node} (h : node ∉ front) :
    node.moveInto front id = node := by
  rw [moveInto, if_neg h]

theorem Node.parent_moveInto_of_mem {front : List Node} {id : String} {node : Node}
    (h : node ∈ front) : (node.moveInto front id).parent = some id :=
  if_pos h

namespace Store

/-- The nodes with a parent, or the roots, in the order of the list. -/
def siblings (store : Store) (parent : Option String) : List Node :=
  store.nodes.filter (·.parent = parent)

/-- A store with the first `count` of the nodes with one parent moved below a plain group with a new
identifier, which is put into the list behind the first `place` nodes. -/
def enclose (store : Store) (parent : Option String) (count place : Nat) (id : String) : Store :=
  let moved := store.nodes.map (·.moveInto ((store.siblings parent).take count) id)
  ⟨moved.take place ++ .ofGroup id parent none :: moved.drop place⟩

/-- Whether a store differs from another only in that some nodes, the first roots or the first children of
a group, are below a group that has their place. -/
structure Encloses (store other : Store) (parent : Option String) (group : Node)
    (front behind : List Node) : Prop where
  unique : (idsOf store.nodes).Nodup
  unique_after : (idsOf other.nodes).Nodup
  fresh : group.id ∉ idsOf store.nodes
  kind : group.kind = .group
  owner : ∀ id, parent = some id → ∃ node ∈ store.nodes, node.id = id ∧ node.kind = .group
  nonempty : front ≠ []
  before : store.siblings parent = front ++ behind
  after : other.siblings parent = group :: behind
  within : other.siblings (some group.id) = front.map (·.moveInto front group.id)
  others : ∀ p, p ≠ parent → p ≠ some group.id → other.siblings p = store.siblings p

variable {store other : Store} {parent : Option String} {node group : Node}
  {front behind above : List Node}

theorem mem_siblings : node ∈ store.siblings parent ↔ node ∈ store.nodes ∧ node.parent = parent := by
  rw [siblings, List.mem_filter, decide_eq_true_eq]

theorem roots_eq_siblings (store : Store) : store.roots = store.siblings none :=
  List.filter_congr fun node _ => by cases node.parent <;> rfl

theorem childrenOf_eq_siblings (store : Store) (id : String) :
    store.childrenOf id = store.siblings (some id) := rfl

theorem unique_siblings (hunique : (idsOf store.nodes).Nodup) (parent : Option String) :
    (idsOf (store.siblings parent)).Nodup :=
  hunique.sublist (List.filter_sublist.map _)

/-! ### The way up -/

/-- Whether nodes lead up to a root, nearest first; where there are none, one is at a root. -/
def Way (store : Store) (above : List Node) : Prop :=
  ∀ owner rest, above = owner :: rest → store.Climbs owner rest

/-- The identifier of the nearest node on a way. -/
def nearest (above : List Node) : Option String :=
  above.head?.map (·.id)

theorem way_nil : store.Way [] :=
  fun _ _ h => by cases h

theorem Climbs.way (h : store.Climbs node above) : store.Way (node :: above) := by
  intro owner rest heq
  obtain ⟨rfl, rfl⟩ := List.cons.inj heq
  exact h

theorem Climbs.way_above : ∀ {above : List Node}, store.Climbs node above →
    store.Way above ∧ node.parent = nearest above
  | [], h => ⟨way_nil, h.2⟩
  | _ :: _, h => ⟨h.2.2.way, h.2.1⟩

/-- Siblings share the way up. -/
theorem Way.climbs (h : store.Way above) (hnode : node ∈ store.siblings (nearest above)) :
    store.Climbs node above :=
  climbs_of_parent (mem_siblings.mp hnode).1 (mem_siblings.mp hnode).2 h

namespace Encloses

variable (h : store.Encloses other parent group front behind)

include h

theorem mem_of_mem_front (hnode : node ∈ front) : node ∈ store.nodes ∧ node.parent = parent := by
  rw [← mem_siblings, h.before]
  exact List.mem_append_left _ hnode

theorem notMem_front (hparent : node.parent ≠ parent) : node ∉ front :=
  fun hnode => hparent (h.mem_of_mem_front hnode).2

theorem notMem_front_of_mem_behind (hnode : node ∈ behind) : node ∉ front := by
  have hunique := unique_siblings h.unique parent
  rw [h.before] at hunique
  intro hfront
  exact (List.nodup_append.mp (List.Nodup.of_map _ hunique)).2.2 _ hfront _ hnode rfl

/-- No way up leads through the new group yet. -/
theorem nearest_ne (hway : store.Way above) : nearest above ≠ some group.id := by
  intro hnearest
  cases above with
  | nil => cases hnearest
  | cons owner rest =>
    refine h.fresh (List.mem_map.mpr ⟨owner, (hway owner rest rfl).mem, ?_⟩)
    exact Option.some.inj hnearest

theorem mem_siblings_after (hclimbs : store.Climbs node above) (hnode : node ∉ front) :
    node ∈ other.siblings node.parent := by
  have hmem : node ∈ store.siblings node.parent := mem_siblings.mpr ⟨hclimbs.mem, rfl⟩
  by_cases hparent : node.parent = parent
  · rw [hparent, h.before] at hmem
    rw [hparent, h.after]
    exact List.mem_cons_of_mem _ ((List.mem_append.mp hmem).resolve_left hnode)
  · obtain ⟨hway, hnearest⟩ := hclimbs.way_above
    rw [h.others _ hparent (hnearest ▸ h.nearest_ne hway)]
    exact hmem

/-- A group has children if it had some, and it has none if it had none. -/
theorem isEmpty_siblings (hclimbs : store.Climbs node above) :
    (other.siblings (some node.id)).isEmpty = (store.siblings (some node.id)).isEmpty := by
  by_cases hparent : some node.id = parent
  · obtain ⟨first, rest, hfront⟩ := List.exists_cons_of_ne_nil h.nonempty
    rw [hparent, h.before, h.after, hfront]
    rfl
  · rw [h.others _ hparent (h.nearest_ne hclimbs.way)]

/-- A function has the arguments that it had. -/
theorem argumentsOf_eq (hclimbs : store.Climbs node above) (hkind : node.kind = .function) :
    other.argumentsOf node.id = store.argumentsOf node.id := by
  have hparent : some node.id ≠ parent := by
    intro heq
    obtain ⟨owner, howner, hid, hgroup⟩ := h.owner node.id heq.symm
    obtain rfl := List.inj_on_of_nodup_map h.unique howner hclimbs.mem hid
    rw [hgroup] at hkind
    cases hkind
  rw [argumentsOf, argumentsOf, childrenOf_eq_siblings, childrenOf_eq_siblings,
    h.others _ hparent (h.nearest_ne hclimbs.way)]

theorem climbs_group (hway : other.Way above) (hparent : parent = nearest above) :
    other.Climbs group above := by
  refine hway.climbs ?_
  rw [← hparent, h.after]
  exact List.mem_cons_self

theorem climbs_of_way (hclimbs : store.Climbs node above) {above' : List Node}
    (hway : other.Way above') (hparent : node.parent = nearest above') :
    ∃ found, other.Climbs (node.moveInto front group.id) found := by
  by_cases hnode : node ∈ front
  · -- The node hangs below the group, which hangs where the node did.
    have hgroup := h.climbs_group hway ((h.mem_of_mem_front hnode).2 ▸ hparent)
    refine ⟨group :: above', hgroup.way.climbs ?_⟩
    rw [nearest, List.head?_cons, Option.map_some, h.within]
    exact List.mem_map_of_mem hnode
  · rw [Node.moveInto_of_notMem hnode]
    exact ⟨above', hway.climbs (hparent ▸ h.mem_siblings_after hclimbs hnode)⟩

/-- **From where there was a way up to a root there still is one.** -/
theorem climbs : ∀ {above : List Node} {node : Node}, store.Climbs node above →
    ∃ found, other.Climbs (node.moveInto front group.id) found
  | [], _, hclimbs => h.climbs_of_way hclimbs way_nil hclimbs.2
  | owner :: rest, _, hclimbs => by
    obtain ⟨found, howner⟩ := climbs hclimbs.2.2
    exact h.climbs_of_way hclimbs howner.way hclimbs.2.1

/-- Where siblings hung before they moved, the group hangs. -/
theorem exists_climbs_group (hway : store.Way above) (hparent : nearest above = parent) :
    ∃ found, other.Climbs group found := by
  cases above with
  | nil => exact ⟨[], h.climbs_group way_nil hparent.symm⟩
  | cons owner rest =>
    obtain ⟨found, howner⟩ := h.climbs (hway owner rest rfl)
    exact ⟨_, h.climbs_group howner.way hparent.symm⟩

end Encloses

/-! ### The store with the group -/

section Enclose

variable {count place : Nat} {id : String}

theorem idsOf_map_moveInto (nodes : List Node) :
    idsOf (nodes.map (·.moveInto front id)) = idsOf nodes := by
  rw [idsOf, idsOf, List.map_map]
  rfl

/-- The identifiers are those of before, and the one of the group. -/
theorem idsOf_enclose_perm (store : Store) (parent : Option String) (count place : Nat) (id : String) :
    (idsOf (store.enclose parent count place id).nodes).Perm (id :: idsOf store.nodes) := by
  have hperm := (@List.perm_middle _ (.ofGroup id parent none)
    ((store.nodes.map (·.moveInto ((store.siblings parent).take count) id)).take place)
    ((store.nodes.map (·.moveInto ((store.siblings parent).take count) id)).drop place)).map Node.id
  rw [List.take_append_drop, List.map_cons] at hperm
  rw [← idsOf_map_moveInto store.nodes]
  exact hperm

/-- The nodes with a parent that is not the group are those that were not moved. -/
theorem filter_moveInto {other : Option String} (hother : other ≠ some id) (nodes : List Node) :
    (nodes.map (·.moveInto front id)).filter (·.parent = other) =
      (nodes.filter (·.parent = other)).filter (· ∉ front) := by
  induction nodes with
  | nil => rfl
  | cons node rest ih =>
    rw [List.map_cons, List.filter_cons, List.filter_cons, ih]
    by_cases hnode : node ∈ front
    · rw [Node.parent_moveInto_of_mem hnode, if_neg (by simpa using hother.symm)]
      split
      · rw [List.filter_cons_of_neg (by simpa using hnode)]
      · rfl
    · rw [Node.moveInto_of_notMem hnode]
      split
      · rw [List.filter_cons_of_pos (by simpa using hnode)]
      · rfl

/-- The nodes below the group are those that were moved. -/
theorem filter_moveInto_self {nodes : List Node} (h : ∀ node ∈ nodes, node.parent ≠ some id) :
    (nodes.map (·.moveInto front id)).filter (·.parent = some id) =
      (nodes.filter (· ∈ front)).map (·.moveInto front id) := by
  rw [List.filter_map]
  refine congrArg (List.map _) (List.filter_congr fun node hnode => ?_)
  rw [Function.comp_apply, Node.moveInto]
  by_cases hfront : node ∈ front
  · simp [hfront]
  · simp [hfront, h node hnode]

theorem siblings_enclose (p : Option String) :
    (store.enclose parent count place id).siblings p =
      ((store.nodes.take place).map (·.moveInto ((store.siblings parent).take count) id)).filter
          (·.parent = p) ++
        (if parent = p then [.ofGroup id parent none] else []) ++
        ((store.nodes.drop place).map (·.moveInto ((store.siblings parent).take count) id)).filter
          (·.parent = p) := by
  have hgroup : decide ((Node.ofGroup id parent none).parent = p) = decide (parent = p) := rfl
  rw [List.map_take, List.map_drop, enclose, siblings, List.filter_append, List.filter_cons, hgroup,
    List.append_assoc]
  by_cases hp : parent = p
  · rw [if_pos hp, if_pos (decide_eq_true hp)]
    rfl
  · rw [if_neg hp, if_neg (by simpa using hp)]
    rfl

theorem filter_split (nodes : List Node) (place : Nat) (keep : Node → Bool) :
    (nodes.take place).filter keep ++ (nodes.drop place).filter keep = nodes.filter keep := by
  rw [← List.filter_append, List.take_append_drop]

/-- The nodes of a front of siblings are found in the list in their order, and so are the others. -/
theorem filter_mem_take (hnodup : (store.siblings parent).Nodup) (count : Nat) :
    store.nodes.filter (· ∈ (store.siblings parent).take count) =
        (store.siblings parent).take count ∧
      (store.siblings parent).filter (· ∉ (store.siblings parent).take count) =
        (store.siblings parent).drop count := by
  have hsiblings : store.nodes.filter (· ∈ (store.siblings parent).take count) =
      (store.siblings parent).filter (· ∈ (store.siblings parent).take count) := by
    rw [siblings, List.filter_filter]
    refine List.filter_congr fun node _ => ?_
    by_cases hmem : node ∈ (store.nodes.filter (·.parent = parent)).take count
    · simp [hmem, (mem_siblings.mp (List.mem_of_mem_take hmem)).2]
    · simp [hmem]
  rw [hsiblings]
  have hsplit := List.take_append_drop count (store.siblings parent)
  generalize (store.siblings parent).take count = front at hsplit ⊢
  generalize (store.siblings parent).drop count = behind at hsplit ⊢
  rw [← hsplit] at hnodup ⊢
  have hdisjoint := (List.nodup_append.mp hnodup).2.2
  have hbehind : ∀ node ∈ behind, node ∉ front := fun node hnode hfront => hdisjoint _ hfront _ hnode rfl
  rw [List.filter_append, List.filter_append]
  constructor
  · rw [List.filter_eq_self.mpr (by simp), List.filter_eq_nil_iff.mpr (by simpa using hbehind),
      List.append_nil]
  · rw [List.filter_eq_nil_iff.mpr (by simp), List.filter_eq_self.mpr (by simpa using hbehind),
      List.nil_append]

/-- **The first siblings are below the group, and the group is in their place.** -/
theorem encloses_enclose (hunique : (idsOf store.nodes).Nodup)
    (hplace : ((store.nodes.take place).filter (·.parent = parent)).length ≤ count)
    (hfresh : ∀ node ∈ store.nodes, node.id ≠ id ∧ node.parent ≠ some id)
    (howner : ∀ owner, parent = some owner → ∃ node ∈ store.nodes, node.id = owner ∧ node.kind = .group)
    (hnonempty : (store.siblings parent).take count ≠ []) :
    store.Encloses (store.enclose parent count place id) parent (.ofGroup id parent none)
      ((store.siblings parent).take count) ((store.siblings parent).drop count) := by
  have hparent : parent ≠ some id := by
    intro heq
    obtain ⟨node, hnode, hid, -⟩ := howner id heq
    exact (hfresh node hnode).1 hid
  have hid : id ∉ idsOf store.nodes := by
    intro hmem
    obtain ⟨node, hnode, heq⟩ := List.mem_map.mp hmem
    exact (hfresh node hnode).1 heq
  have hnodup : (store.siblings parent).Nodup := List.Nodup.of_map _ (unique_siblings hunique parent)
  obtain ⟨hfront, hbehind⟩ := filter_mem_take hnodup count
  refine ⟨hunique, ?_, hid, rfl, howner, hnonempty, (List.take_append_drop count _).symm, ?_, ?_,
    fun p hp hne => ?_⟩
  · exact (idsOf_enclose_perm store parent count place id).nodup_iff.mpr
      (List.nodup_cons.mpr ⟨hid, hunique⟩)
  · -- The siblings before the place are all moved, so that none of them stays before the group.
    have hmoved : ((store.nodes.take place).filter (·.parent = parent)).filter
        (· ∉ (store.siblings parent).take count) = [] := by
      have hfirst : (store.nodes.take place).filter (·.parent = parent) <+: store.siblings parent :=
        (List.take_prefix place store.nodes).filter _
      have hsubset := (List.prefix_take_iff.mpr ⟨hfirst, hplace⟩).subset
      exact List.filter_eq_nil_iff.mpr fun node hnode => by simpa using hsubset hnode
    have hrest : ((store.nodes.drop place).filter (·.parent = parent)).filter
        (· ∉ (store.siblings parent).take count) = (store.siblings parent).drop count := by
      rw [← hbehind, ← List.nil_append (List.filter _ (List.filter _ (store.nodes.drop place))),
        ← hmoved, ← List.filter_append, filter_split]
      rfl
    rw [siblings_enclose, if_pos rfl, filter_moveInto hparent, filter_moveInto hparent, hmoved, hrest]
    rfl
  · have htake : ∀ node ∈ store.nodes.take place, node.parent ≠ some id :=
      fun node hnode => (hfresh node (List.mem_of_mem_take hnode)).2
    have hdrop : ∀ node ∈ store.nodes.drop place, node.parent ≠ some id :=
      fun node hnode => (hfresh node (List.mem_of_mem_drop hnode)).2
    rw [Node.ofGroup, siblings_enclose, if_neg hparent, filter_moveInto_self htake,
      filter_moveInto_self hdrop, List.append_nil, ← List.map_append, filter_split, hfront]
  · have hne : p ≠ some id := hne
    rw [siblings_enclose, if_neg hp.symm, filter_moveInto hne, filter_moveInto hne, List.append_nil,
      ← List.filter_append, filter_split]
    refine List.filter_eq_self.mpr fun node hnode => ?_
    rw [decide_eq_true_eq]
    intro hmem
    exact hp ((mem_siblings.mp hnode).2.symm.trans (mem_siblings.mp (List.mem_of_mem_take hmem)).2)

end Enclose

end Store
end Formulary
