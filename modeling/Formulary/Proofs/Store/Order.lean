/-
# Editing keeps siblings in their order

All nodes are in one list, and the children of a node are those of the list that name it, whatever stands
between them. An edit puts one node between two parts of the list (`Store.Gains`), takes one out, or changes
one in its place. Making a node a call does all of this: it changes the node, takes out its former arguments
with all that is below them, and puts new ones at the end. Of what was there and stays nothing changes its
place (`Store.KeepsOrder`). A sequence of siblings is what the list is, read through a filter, so that a new
node is next to its sibling in the sequence if it is next to it in the list (`Store.Places`), and a sequence
that gains and loses no node is the same as before (`Store.Concerns`).

Key definitions: `Store.KeepsOrder`, `Store.Concerns`, `Store.Places`.
Key theorems: `Store.Gains.siblings_of_ne`, `Store.exists_kept_of_setFunction`, `Store.order_of_outcome`.
-/
import Formulary.Proofs.Store.Enclosed
import Formulary.Proofs.Store.Refusal
import Formulary.Proofs.Structure.Inert
import Formulary.Proofs.Structure.Joining
import Formulary.Proofs.Structure.Switched

namespace Formulary
namespace Store

open Relation (TransGen)

/-! ### What an edit leaves alone -/

/-- Whether the nodes that are there before and after an edit are in the same order, each as the edit revises
it. -/
def KeepsOrder (store : Store) (edit : Edit) (after : Store) : Prop :=
  after.nodes.filter (fun n => store.contains n.id) =
    (store.nodes.filter fun n => after.contains n.id).map fun n => edit.revise n

/-- Whether an edit has to do with the nodes that have a given parent, or with the roots: it puts a node among
them, or takes one away. Making a node a call of a function with a fixed number of arguments has to do with
the children of the node, and with those of its former arguments and of what is below these. -/
def Concerns (store : Store) (fresh : Nat → String) (parent : Option String) : Edit → Prop
  | .add new _ => parent = (new.make (fresh 0)).parent
  | .insertRelative _ id _ | .delete id | .insertOperator id _ _ =>
    ∃ node ∈ store.nodes, node.id = id ∧ parent = node.parent
  | .update id changes =>
    ∃ node ∈ store.nodes, node.id = id ∧
      ((Edit.update id changes).revise node).parent ≠ node.parent ∧
        (parent = node.parent ∨ parent = ((Edit.update id changes).revise node).parent)
  | .setFunction id name =>
    (Signature.fixedArity? name).isSome = true ∧ ∃ owner, parent = some owner ∧
      (owner = id ∨ ∃ group ∈ store.argumentsOf id, group.id ≠ id ∧
        (owner = group.id ∨ TransGen store.ParentOf owner group.id))

/-- Where the new node of an edit is among its siblings. -/
def Places (store : Store) (fresh : Nat → String) (after : Store) : Edit → Prop
  | .add new none =>
    after.siblings (new.make (fresh 0)).parent =
      store.siblings (new.make (fresh 0)).parent ++ [new.make (fresh 0)]
  | .add new (some id) =>
    ∀ sibling ∈ store.nodes, sibling.id = id → sibling.parent = (new.make (fresh 0)).parent →
      ∃ front behind, store.siblings sibling.parent = front ++ sibling :: behind ∧
        after.siblings sibling.parent = front ++ sibling :: new.make (fresh 0) :: behind
  | .insertRelative new id position =>
    ∃ target ∈ store.nodes, target.id = id ∧
      ∃ front behind, store.siblings target.parent = front ++ target :: behind ∧
        (position = "before" ∧ after.siblings target.parent =
            front ++ { new.make (fresh 0) with parent := target.parent } :: target :: behind ∨
          position = "after" ∧ after.siblings target.parent =
            front ++ target :: { new.make (fresh 0) with parent := target.parent } :: behind)
  | .insertOperator leftId rightId symbol =>
    ∃ left right, left.id = leftId ∧ right.id = rightId ∧
      ∃ front behind, store.siblings left.parent = front ++ left :: right :: behind ∧
        after.siblings left.parent =
          front ++ left :: .ofOperator (fresh 0) left.parent symbol :: right :: behind
  | _ => True

variable {store after : Store} {fresh : Nat → String} {edit : Edit} {node new target : Node}
  {front behind kept : List Node} {parent : Option String} {id : String}

/-! ### The order of what stays -/

/-- The nodes that stay are in their order if they are a part of the list, each as the edit revises it. -/
theorem keepsOrder_of_sublist (hunique : (idsOf store.nodes).Nodup) (hkept : kept.Sublist store.nodes)
    (h : after.nodes.filter (fun n => store.contains n.id) = kept.map fun n => edit.revise n) :
    store.KeepsOrder edit after := by
  have hstays : ∀ n ∈ store.nodes, after.contains n.id = true ↔ n ∈ kept := by
    intro n hn
    have hcontains : store.contains n.id = true := List.any_eq_true.mpr ⟨n, hn, decide_eq_true rfl⟩
    constructor
    · intro hafter
      obtain ⟨m, hm, hid⟩ := List.any_eq_true.mp hafter
      have hid : m.id = n.id := of_decide_eq_true hid
      have hmem : m ∈ kept.map fun n => edit.revise n := by
        rw [← h]
        exact List.mem_filter.mpr ⟨hm, hid ▸ hcontains⟩
      obtain ⟨k, hk, rfl⟩ := List.mem_map.mp hmem
      rw [Edit.revise_id] at hid
      exact List.inj_on_of_nodup_map hunique (hkept.subset hk) hn hid ▸ hk
    · intro hn
      have hmem : edit.revise n ∈ after.nodes.filter fun n => store.contains n.id := by
        rw [h]
        exact List.mem_map_of_mem hn
      exact List.any_eq_true.mpr
        ⟨_, (List.mem_filter.mp hmem).1, decide_eq_true (Edit.revise_id edit n)⟩
  have hall : kept.filter (fun n => after.contains n.id) = kept :=
    List.filter_eq_self.mpr fun n hn => (hstays n (hkept.subset hn)).mpr hn
  rw [KeepsOrder, h, ← filter_eq_of_sublist hkept (List.Nodup.of_map _ hunique)
    fun n hn hafter => (hstays n hn).mp hafter, hall]

theorem contains_eq_true_iff : store.contains id = true ↔ id ∈ idsOf store.nodes := by
  simp [contains, idsOf]

/-- Of a list the nodes with an identifier from the store are all, if it is a part of the store. -/
theorem filter_contains_eq_self {nodes : List Node} (h : idsOf nodes ⊆ idsOf store.nodes) :
    nodes.filter (fun n => store.contains n.id) = nodes :=
  List.filter_eq_self.mpr fun _ hn => contains_eq_true_iff.mpr (h (List.mem_map_of_mem hn))

/-! ### A further node -/

namespace Gains

variable (h : store.Gains new front behind after)

include h

theorem keepsOrder (hunique : (idsOf store.nodes).Nodup) (hrevise : ∀ n, edit.revise n = n) :
    store.KeepsOrder edit after := by
  refine keepsOrder_of_sublist hunique (List.Sublist.refl _) ?_
  have hnew : store.contains new.id = false := contains_eq_false_iff.mpr h.fresh
  have hids : idsOf (front ++ behind) ⊆ idsOf store.nodes := by
    rw [h.before]
    exact List.Subset.refl _
  rw [h.after, List.filter_append, List.filter_cons_of_neg (by simp [hnew]), ← List.filter_append,
    filter_contains_eq_self hids, ← h.before, List.map_congr_left fun n _ => hrevise n, List.map_id']

/-- The new node is nobody's sibling but that of the nodes with its parent. -/
theorem siblings_of_ne (hparent : parent ≠ new.parent) : after.siblings parent = store.siblings parent := by
  rw [siblings, siblings, h.after, h.before, List.filter_append, List.filter_append,
    List.filter_cons_of_neg (by simpa using Ne.symm hparent)]

/-- Where its siblings are, the new node is where it is in the list. -/
theorem siblings_of_eq (hparent : new.parent = parent) :
    store.siblings parent = front.filter (·.parent = parent) ++ behind.filter (·.parent = parent) ∧
      after.siblings parent =
        front.filter (·.parent = parent) ++ new :: behind.filter (·.parent = parent) := by
  rw [siblings, siblings, h.after, h.before, List.filter_append, List.filter_append, List.filter_cons,
    if_pos (decide_eq_true hparent)]
  exact ⟨rfl, rfl⟩

end Gains

/-- A node that is right in front of another one in the list is so among its siblings. -/
theorem Gains.siblings_before (h : store.Gains new front (target :: behind) after)
    (hparent : new.parent = target.parent) :
    store.siblings target.parent = front.filter (·.parent = target.parent) ++
        target :: behind.filter (·.parent = target.parent) ∧
      after.siblings target.parent = front.filter (·.parent = target.parent) ++
        new :: target :: behind.filter (·.parent = target.parent) := by
  obtain ⟨hbefore, hafter⟩ := h.siblings_of_eq hparent
  rw [List.filter_cons_of_pos (by simp)] at hbefore hafter
  exact ⟨hbefore, hafter⟩

/-- A node that is right behind another one in the list is so among its siblings. -/
theorem Gains.siblings_behind (h : store.Gains new (front ++ [target]) behind after)
    (hparent : new.parent = target.parent) :
    store.siblings target.parent = front.filter (·.parent = target.parent) ++
        target :: behind.filter (·.parent = target.parent) ∧
      after.siblings target.parent = front.filter (·.parent = target.parent) ++
        target :: new :: behind.filter (·.parent = target.parent) := by
  obtain ⟨hbefore, hafter⟩ := h.siblings_of_eq hparent
  rw [List.filter_append, List.filter_cons_of_pos (by simp), List.filter_nil, List.append_assoc,
    List.singleton_append] at hbefore hafter
  exact ⟨hbefore, hafter⟩

/-- Where the node stands, the new one comes right in front of it. -/
theorem putBefore_append {node : Node} (new : Node) (rest : List Node) : ∀ {first : List Node},
    node.id ∉ idsOf first →
      putBefore node.id new (first ++ node :: rest) = first ++ new :: node :: rest
  | [], _ => by simp [putBefore]
  | other :: first, h => by
    have hother : ¬other.id = node.id := fun heq => h (by simp [idsOf, heq])
    have hfirst : node.id ∉ idsOf first := fun hmem => h (List.mem_cons_of_mem _ hmem)
    rw [List.cons_append, putBefore, if_neg hother, putBefore_append new rest hfirst, List.cons_append]

/-- A node that is required stands in the list, and none of its identifier in front of it. -/
theorem exists_append_of_require (h : store.require id = .ok node) :
    ∃ first rest, store.nodes = first ++ node :: rest ∧ node.id = id ∧ id ∉ idsOf first := by
  unfold require at h
  split at h
  · next hget =>
    obtain rfl := Except.ok.inj h
    obtain ⟨hid, first, rest, hnodes, hfirst⟩ := List.find?_eq_some_iff_append.mp hget
    refine ⟨first, rest, hnodes, of_decide_eq_true hid, fun hmem => ?_⟩
    obtain ⟨n, hn, hsame⟩ := List.mem_map.mp hmem
    simpa [hsame] using hfirst n hn
  · cases h

/-- What is added comes behind all nodes, or behind the one that it is added after. -/
theorem gains_of_add {place : Option String} (h : store.add new place = .ok after) :
    ∃ front behind, store.Gains new front behind after ∧ (place = none → behind = []) ∧
      ∀ id, place = some id → ∃ first sibling, front = first ++ [sibling] ∧ sibling.id = id := by
  have hfresh := (perm_of_add h).1
  obtain ⟨⟨⟩, -, h⟩ := bind_eq_ok h
  cases place with
  | none =>
    obtain rfl := Except.ok.inj h
    exact ⟨store.nodes, [], ⟨(List.append_nil _).symm, rfl, hfresh⟩, fun _ => rfl, fun _ h => by cases h⟩
  | some id =>
    obtain ⟨sibling, hsibling, h⟩ := bind_eq_ok h
    obtain ⟨first, rest, hnodes, rfl, hfirst⟩ := exists_append_of_require hsibling
    obtain rfl := Except.ok.inj h
    refine ⟨first ++ [sibling], rest, ⟨?_, ?_, hfresh⟩, fun h => (by cases h), fun id h => ?_⟩
    · rw [hnodes, List.append_assoc, List.singleton_append]
    · simp only [hnodes, putAfter_append _ _ hfirst, List.append_assoc, List.singleton_append]
    · exact ⟨first, sibling, rfl, Option.some.inj h⟩

/-- What is put next to a node comes right in front of it or right behind it. -/
theorem gains_of_insertRelative {position : String} {placed : Node}
    (h : store.insertRelative new id position = .ok (placed, after)) :
    ∃ first target rest, store.nodes = first ++ target :: rest ∧ target.id = id ∧
      placed = { new with parent := target.parent } ∧
        (position = "before" ∧ store.Gains placed first (target :: rest) after ∨
          position = "after" ∧ store.Gains placed (first ++ [target]) rest after) := by
  have hfresh := (perm_of_insertRelative h).1
  unfold insertRelative at h
  dsimp only at h
  split at h
  · cases h
  · next hposition =>
    obtain ⟨⟨⟩, -, h⟩ := bind_eq_ok h
    obtain ⟨target, htarget, h⟩ := bind_eq_ok h
    obtain ⟨first, rest, hnodes, rfl, hfirst⟩ := exists_append_of_require htarget
    split at h
    · next hbefore =>
      cases h
      refine ⟨first, target, rest, hnodes, rfl, rfl, .inl ⟨hbefore, hnodes, ?_, hfresh⟩⟩
      simp only [hnodes, putBefore_append _ _ hfirst]
    · next hbefore =>
      cases h
      have hafter : position = "after" := by simpa [hbefore] using hposition
      refine ⟨first, target, rest, hnodes, rfl, rfl, .inr ⟨hafter, ?_, ?_, hfresh⟩⟩
      · rw [hnodes, List.append_assoc, List.singleton_append]
      · simp only [hnodes, putAfter_append _ _ hfirst, List.append_assoc, List.singleton_append]

/-- Only adjacent siblings are taken for such. -/
theorem nextSibling_of_requireAdjacent {before later : String}
    (h : store.requireAdjacent before later = .ok parent) : store.NextSibling before later := by
  have hbefore : before ∈ idsOf store.nodes := by
    by_contra hnot
    rw [requireAdjacent, require_of_notMem hnot] at h
    cases h
  have hlater : later ∈ idsOf store.nodes := by
    by_contra hnot
    obtain ⟨left, -, hleft⟩ := exists_require hbefore
    rw [requireAdjacent, hleft, require_of_notMem hnot] at h
    cases h
  by_contra hapart
  rw [requireAdjacent_of_apart hbefore hlater hapart] at h
  cases h

/-- An operator comes right behind its first operand in the list, and the second one is the next sibling. -/
theorem gains_of_insertOperator (hunique : (idsOf store.nodes).Nodup) {leftId rightId free : String}
    {symbol : Option String} (h : store.insertOperator leftId rightId symbol free = .ok (new, after)) :
    ∃ first left rest right later, left.id = leftId ∧ right.id = rightId ∧
      new = .ofOperator free left.parent symbol ∧ store.Gains new (first ++ [left]) rest after ∧
        rest.filter (·.parent = left.parent) = right :: later := by
  obtain ⟨parent, hadjacent, h⟩ := bind_eq_ok h
  obtain ⟨other, hadd, h⟩ := bind_eq_ok h
  cases h
  have hnext := nextSibling_of_requireAdjacent hadjacent
  obtain ⟨front, rest, hgains, -, hplace⟩ := gains_of_add hadd
  obtain ⟨first, left, rfl, rfl⟩ := hplace leftId rfl
  obtain ⟨parent', others, n, right, later, hsplit, hid, rfl⟩ := (nextSibling_iff hunique).mp hnext
  have hnodes : store.nodes = first ++ left :: rest := by
    rw [hgains.before, List.append_assoc, List.singleton_append]
  have hleft : left ∈ store.nodes := by simp [hnodes]
  have hn : n ∈ store.nodes.filter (·.parent = parent') := by simp [hsplit]
  obtain ⟨hn, hparent⟩ := List.mem_filter.mp hn
  obtain rfl := List.inj_on_of_nodup_map hunique hn hleft hid
  obtain rfl : n.parent = parent' := of_decide_eq_true hparent
  have hrequire := requireAdjacent_of_next (get?_of_unique hunique hleft) hnext
  obtain rfl := Except.ok.inj (hadjacent.symm.trans hrequire)
  obtain ⟨-, hlater⟩ := filter_around (hnodes ▸ hunique) hparent (hnodes ▸ hsplit)
  exact ⟨first, n, rest, right, later, rfl, rfl, rfl, hgains, hlater⟩

/-! ### A node made a call -/

section SetFunction

variable (hunique : (idsOf store.nodes).Nodup) (hnode : node ∈ store.nodes) (name : Option String)

include hunique hnode

/-- Once the node is a call it is no argument any more; its other arguments are what they were. -/
theorem mem_argumentsOf_revise {group : Node} :
    group ∈ (Store.mk (store.nodes.map fun n => (Edit.setFunction node.id name).revise n)).argumentsOf
        node.id ↔
      group ∈ store.argumentsOf node.id ∧ group.id ≠ node.id := by
  rw [mem_argumentsOf, mem_argumentsOf, (Edit.keepsLinks_setFunction node.id name).childrenOf_map,
    List.mem_map]
  constructor
  · rintro ⟨⟨n, hn, rfl⟩, hargument⟩
    by_cases hid : n.id = node.id
    · rw [List.inj_on_of_nodup_map hunique (mem_childrenOf.mp hn).1 hnode hid,
        Edit.revise_setFunction_self] at hargument
      cases hargument
    · rw [Edit.revise_setFunction_of_ne hid] at hargument ⊢
      exact ⟨⟨hn, hargument⟩, hid⟩
  · rintro ⟨⟨hchild, hargument⟩, hid⟩
    exact ⟨⟨group, hchild, Edit.revise_setFunction_of_ne hid name⟩, hargument⟩

/-- **What is left when a node is made a call** of a function with a fixed number of arguments is a part of
the list: all but its former arguments and what is below them. The node itself is left unless it is below one
of them, and in no other case is it an argument of its own that goes. -/
theorem exists_kept_of_setFunction {count : Nat} (harity : Signature.fixedArity? name = some count)
    (fresh : Nat → String) : ∃ kept : List Node, kept.Sublist store.nodes ∧
      (∀ n ∈ store.nodes, n ∉ kept → ∃ group ∈ store.argumentsOf node.id, group.id ≠ node.id ∧
        (n = group ∨ store.Under n group)) ∧
      store.setFunction node.id name fresh = .ok (emptyArguments node.id fresh count,
        ⟨(kept.map fun n => (Edit.setFunction node.id name).revise n) ++
          emptyArguments node.id fresh count⟩) := by
  have hlinks := Edit.keepsLinks_setFunction node.id name
  have hgroups := fun group => @mem_argumentsOf_revise store node hunique hnode name group
  have hold : ∀ group ∈ (Store.mk (store.nodes.map fun n =>
      (Edit.setFunction node.id name).revise n)).argumentsOf node.id, group ∈ store.nodes :=
    fun group hgroup => (mem_childrenOf.mp (mem_argumentsOf.mp ((hgroups group).mp hgroup).1).1).1
  refine ⟨store.pruned (idsOf ((Store.mk (store.nodes.map fun n =>
    (Edit.setFunction node.id name).revise n)).argumentsOf node.id)), List.filter_sublist, ?_, ?_⟩
  · intro n hn hnot
    by_contra hnone
    refine hnot ((mem_pruned_iff hunique hold).mpr ⟨hn, ?_⟩)
    rintro ⟨group, hgroup, hbelow⟩
    obtain ⟨hargument, hid⟩ := (hgroups group).mp hgroup
    exact hnone ⟨group, hargument, hid, hbelow⟩
  · rw [← hlinks.pruned_map, setFunction, update_setFunction hunique hnode]
    simp only [harity]
    rfl

end SetFunction

/-! ### Every edit -/

/-- What an edit that succeeds leaves of the sequences of siblings. -/
structure Arranges (store : Store) (fresh : Nat → String) (edit : Edit) (after : Store) : Prop where
  order : store.KeepsOrder edit after
  place : store.Places fresh after edit
  others : ∀ parent, ¬store.Concerns fresh parent edit →
    after.siblings parent = (store.siblings parent).map fun n => edit.revise n

theorem siblings_map {f : Node → Node}
    (h : ∀ n ∈ store.nodes, (f n).parent = parent ↔ n.parent = parent) :
    (Store.mk (store.nodes.map f)).siblings parent = (store.siblings parent).map f := by
  rw [siblings, siblings, List.filter_map]
  exact congrArg _ (List.filter_congr fun n hn => decide_eq_decide.mpr (h n hn))

/-- Nodes that were there are still known if they are only revised. -/
theorem filter_contains_map (hkept : kept.Sublist store.nodes) (edit : Edit) :
    (kept.map fun n => edit.revise n).filter (fun n => store.contains n.id) =
      kept.map fun n => edit.revise n := by
  refine filter_contains_eq_self fun id hid => ?_
  obtain ⟨n, hn, rfl⟩ := List.mem_map.mp hid
  obtain ⟨m, hm, rfl⟩ := List.mem_map.mp hn
  rw [Edit.revise_id]
  exact List.mem_map_of_mem (hkept.subset hm)

/-- All nodes stay if they are only revised. -/
theorem keepsOrder_map (hunique : (idsOf store.nodes).Nodup) (edit : Edit) :
    store.KeepsOrder edit ⟨store.nodes.map fun n => edit.revise n⟩ :=
  keepsOrder_of_sublist hunique (List.Sublist.refl _) (filter_contains_map (List.Sublist.refl _) edit)

/-- An edit that puts a node into the list concerns the siblings of the node only. -/
theorem Gains.arranges (h : store.Gains new front behind after) (hunique : (idsOf store.nodes).Nodup)
    (hrevise : ∀ n, edit.revise n = n) (hconcerns : store.Concerns fresh new.parent edit)
    (hplace : store.Places fresh after edit) : store.Arranges fresh edit after where
  order := h.keepsOrder hunique hrevise
  place := hplace
  others parent hparent := by
    have hne : parent ≠ new.parent := fun heq => hparent (heq ▸ hconcerns)
    rw [h.siblings_of_ne hne, List.map_congr_left fun n _ => hrevise n, List.map_id']

section Cases

variable (hunique : (idsOf store.nodes).Nodup) {given : Edited}

include hunique

theorem arranges_add {made : NewNode} {place : Option String}
    (h : store.add (made.make (fresh 0)) place = .ok after) :
    store.Arranges fresh (.add made place) after := by
  obtain ⟨front, behind, hgains, hend, hplace⟩ := gains_of_add h
  refine hgains.arranges hunique (fun _ => rfl) rfl ?_
  cases place with
  | none =>
    obtain rfl := hend rfl
    obtain ⟨hbefore, hafter⟩ := hgains.siblings_of_eq rfl
    rw [Places, hbefore, hafter, List.filter_nil, List.append_nil]
  | some id =>
    obtain ⟨first, target, rfl, rfl⟩ := hplace id rfl
    intro sibling hsibling hid hparent
    have htarget : target ∈ store.nodes := by simp [hgains.before]
    obtain rfl := List.inj_on_of_nodup_map hunique hsibling htarget hid
    obtain ⟨hbefore, hafter⟩ := hgains.siblings_behind hparent.symm
    exact ⟨_, _, hbefore, hafter⟩

theorem arranges_insertRelative {made : NewNode} {position : String} {placed : Node}
    (h : store.insertRelative (made.make (fresh 0)) id position = .ok (placed, after)) :
    store.Arranges fresh (.insertRelative made id position) after := by
  obtain ⟨first, target, rest, hnodes, rfl, rfl, hgains⟩ := gains_of_insertRelative h
  have htarget : target ∈ store.nodes := by simp [hnodes]
  have hconcerns : store.Concerns fresh target.parent (.insertRelative made target.id position) :=
    ⟨target, htarget, rfl, rfl⟩
  rcases hgains with ⟨hposition, hgains⟩ | ⟨hposition, hgains⟩
  · obtain ⟨hbefore, hafter⟩ := hgains.siblings_before rfl
    exact hgains.arranges hunique (fun _ => rfl) hconcerns
      ⟨target, htarget, rfl, _, _, hbefore, .inl ⟨hposition, hafter⟩⟩
  · obtain ⟨hbefore, hafter⟩ := hgains.siblings_behind rfl
    exact hgains.arranges hunique (fun _ => rfl) hconcerns
      ⟨target, htarget, rfl, _, _, hbefore, .inr ⟨hposition, hafter⟩⟩

theorem arranges_insertOperator {leftId rightId : String} {symbol : Option String}
    (h : store.insertOperator leftId rightId symbol (fresh 0) = .ok (new, after)) :
    store.Arranges fresh (.insertOperator leftId rightId symbol) after := by
  obtain ⟨first, left, rest, right, later, rfl, rfl, rfl, hgains, hlater⟩ :=
    gains_of_insertOperator hunique h
  have hleft : left ∈ store.nodes := by simp [hgains.before]
  obtain ⟨hbefore, hafter⟩ := hgains.siblings_behind rfl
  rw [hlater] at hbefore hafter
  exact hgains.arranges hunique (fun _ => rfl) ⟨left, hleft, rfl, rfl⟩
    ⟨left, right, rfl, rfl, _, _, hbefore, hafter⟩

theorem arranges_update {changes : List Change} (h : store.update id changes = .ok (new, after)) :
    store.Arranges fresh (.update id changes) after := by
  rcases update_cases hunique id changes with ⟨changed, hupdate⟩ | ⟨e, hupdate, -⟩
  · cases h.symm.trans hupdate
    refine ⟨keepsOrder_map hunique _, trivial, fun parent hparent => siblings_map fun n hn => ?_⟩
    by_cases hid : n.id = id
    · by_cases hsame : ((Edit.update id changes).revise n).parent = n.parent
      · rw [hsame]
      · have hneither := fun hor => hparent ⟨n, hn, hid, hsame, hor⟩
        exact iff_of_false (fun heq => hneither (.inr heq.symm)) (fun heq => hneither (.inl heq.symm))
    · have hsame : (Edit.update id changes).revise n = n :=
        Edit.revise_of_changed? fun heq => hid (Option.some.inj heq).symm
      rw [hsame]
  · cases h.symm.trans hupdate

theorem arranges_delete (h : store.delete id = .ok (node, after)) :
    store.Arranges fresh (.delete id) after := by
  obtain ⟨found, hfound, h⟩ := bind_eq_ok h
  obtain ⟨hmem, rfl⟩ := require_eq_ok hfound
  cases h
  have hsub : (store.nodes.eraseP (·.id = node.id)).Sublist store.nodes := List.eraseP_sublist
  refine ⟨keepsOrder_of_sublist hunique hsub ?_, trivial, fun parent hparent => ?_⟩
  · exact (filter_contains_eq_self (hsub.map _).subset).trans (List.map_id' _).symm
  · have hothers : ∀ n ∈ store.nodes, (n.parent = parent ∧ n.id ≠ node.id) ↔ n.parent = parent := by
      refine fun n hn => ⟨And.left, fun heq => ⟨heq, fun hid => ?_⟩⟩
      exact hparent ⟨n, hn, hid, heq.symm⟩
    rw [siblings, eraseP_eq_filter hunique, List.filter_filter, siblings]
    refine (List.filter_congr fun n hn => ?_).trans (List.map_id' _).symm
    rw [← Bool.decide_and]
    exact decide_eq_decide.mpr (hothers n hn)

theorem arranges_setFunction {name : Option String} {groups : List Node}
    (hfresh : store.FreshFor fresh (.setFunction id name))
    (h : store.setFunction id name fresh = .ok (groups, after)) :
    store.Arranges fresh (.setFunction id name) after := by
  have hmem : id ∈ idsOf store.nodes := by
    by_contra hnot
    rw [setFunction, update, require_of_notMem hnot] at h
    cases h
  obtain ⟨node, hnode, rfl⟩ := List.mem_map.mp hmem
  have hlinks := Edit.keepsLinks_setFunction node.id name
  cases harity : Signature.fixedArity? name with
  | none =>
    rw [setFunction, update_setFunction hunique hnode] at h
    simp only [harity] at h
    cases h
    refine ⟨keepsOrder_map hunique _, trivial, fun parent _ => siblings_map fun n _ => ?_⟩
    rw [hlinks.parent]
  | some count =>
    obtain ⟨kept, hkept, hgone, hset⟩ := exists_kept_of_setFunction hunique hnode name harity fresh
    cases h.symm.trans hset
    refine ⟨keepsOrder_of_sublist hunique hkept ?order, trivial, fun parent hparent => ?others⟩
    case order =>
      have hnew : (emptyArguments node.id fresh count).filter (fun n => store.contains n.id) = [] := by
        refine List.filter_eq_nil_iff.mpr fun group hgroup => ?_
        obtain ⟨slot, hslot, rfl⟩ := mem_emptyArguments.mp hgroup
        have hunused := hfresh.2 slot (by rwa [Edit.unchecked, harity])
        simpa [contains_eq_false_iff, Node.ofGroup] using hunused
      rw [List.filter_append, filter_contains_map hkept, hnew, List.append_nil]
    case others =>
      have hne : parent ≠ some node.id := fun heq => hparent ⟨by simp [harity], _, heq, .inl rfl⟩
      have hnew : (emptyArguments node.id fresh count).filter (·.parent = parent) = [] := by
        refine List.filter_eq_nil_iff.mpr fun group hgroup => ?_
        obtain ⟨slot, -, rfl⟩ := mem_emptyArguments.mp hgroup
        exact fun heq => hne (of_decide_eq_true heq).symm
      -- What goes is an argument of the node, or below one and then a child of what goes.
      have hstays : ∀ n ∈ store.nodes, decide (n.parent = parent) = true → n ∈ kept := by
        intro n hn hchild
        obtain rfl : n.parent = parent := of_decide_eq_true hchild
        by_contra hnot
        obtain ⟨group, hgroup, hid, rfl | hunder⟩ := hgone n hn hnot
        · exact hne (mem_childrenOf.mp (mem_argumentsOf.mp hgroup).1).2
        · obtain ⟨owner, howner, habove⟩ := (under_iff hunique hn).mp hunder
          exact hparent ⟨by simp [harity], owner, howner, .inr ⟨group, hgroup, hid, habove⟩⟩
      have hsiblings : (Store.mk kept).siblings parent = store.siblings parent :=
        filter_eq_of_sublist hkept (List.Nodup.of_map _ hunique) hstays
      rw [siblings, List.filter_append, hnew, List.append_nil, ← hsiblings]
      exact @siblings_map ⟨kept⟩ parent _ fun n _ => by rw [hlinks.parent]

end Cases

theorem exists_of_map_eq_ok {α β : Type} {x : Except EditError α} {f : α → β} {b : β}
    (h : x.map f = .ok b) : ∃ a, x = .ok a ∧ f a = b := by
  cases x with
  | error e => cases h
  | ok a => exact ⟨a, rfl, Except.ok.inj h⟩

/-- **An edit keeps siblings in their order.** If it succeeds, then the nodes that are there before and after
it are in the same order and the same, but for one that is updated or made a call. A node that is put next to
another one is next to it among its siblings, an operator is between its operands, and a node that is added
in no place comes last. All other sequences of siblings are the same. -/
theorem order_of_outcome (hunique : (idsOf store.nodes).Nodup) (hfresh : store.FreshFor fresh edit)
    {given : Edited} (h : store.outcome fresh edit = .ok (given, after)) :
    store.KeepsOrder edit after ∧ (∀ n, edit.changed? ≠ some n.id → edit.revise n = n) ∧
      store.Places fresh after edit ∧
        ∀ parent, ¬store.Concerns fresh parent edit →
          after.siblings parent = (store.siblings parent).map fun n => edit.revise n := by
  have harranges : store.Arranges fresh edit after := by
    cases edit with
    | add made place =>
      obtain ⟨after, hadd, ⟨⟩⟩ := exists_of_map_eq_ok h
      exact arranges_add hunique hadd
    | insertRelative made id position =>
      obtain ⟨⟨placed, after⟩, hinsert, ⟨⟩⟩ := exists_of_map_eq_ok h
      exact arranges_insertRelative hunique hinsert
    | update id changes =>
      obtain ⟨⟨new, after⟩, hupdate, ⟨⟩⟩ := exists_of_map_eq_ok h
      exact arranges_update hunique hupdate
    | delete id =>
      obtain ⟨⟨node, after⟩, hdelete, ⟨⟩⟩ := exists_of_map_eq_ok h
      exact arranges_delete hunique hdelete
    | setFunction id name =>
      obtain ⟨⟨groups, after⟩, hset, ⟨⟩⟩ := exists_of_map_eq_ok h
      exact arranges_setFunction hunique hfresh hset
    | insertOperator leftId rightId symbol =>
      obtain ⟨⟨new, after⟩, hinsert, ⟨⟩⟩ := exists_of_map_eq_ok h
      exact arranges_insertOperator hunique hinsert
  exact ⟨harranges.order, fun n hn => Edit.revise_of_changed? hn, harranges.place, harranges.others⟩

/-- A call between whose argument and its value there are other nodes. -/
def straggling : Store :=
  ⟨[.ofValue "v" (some "g") (some (.integer 1)), .ofFunction "f" none (some "IF"),
    .ofOperator "o" none (some "+"), .ofGroup "g" (some "f") (some 0),
    .ofValue "w" none (some (.integer 2))]⟩

/-- The list with the call of another function. -/
def rearranged : Store :=
  ⟨[.ofFunction "f" none (some "NOT"), .ofOperator "o" none (some "+"),
    .ofValue "w" none (some (.integer 2)), .ofGroup "new" (some "f") (some 0)]⟩

theorem order_straggling :
    (idsOf straggling.nodes).Nodup ∧
      straggling.FreshFor (fun _ => "new") (.setFunction "f" (some "NOT")) ∧
      straggling.outcome (fun _ => "new") (.setFunction "f" (some "NOT")) =
        .ok (.arguments [.ofGroup "new" (some "f") (some 0)], rearranged) ∧
      straggling.KeepsOrder (.setFunction "f" (some "NOT")) rearranged ∧
      rearranged.siblings none = [.ofFunction "f" none (some "NOT"), .ofOperator "o" none (some "+"),
        .ofValue "w" none (some (.integer 2))] := by
  have hunique : (idsOf straggling.nodes).Nodup := by decide
  have hfresh : straggling.FreshFor (fun _ => "new") (.setFunction "f" (some "NOT")) := by
    constructor <;> decide
  have hset : straggling.setFunction "f" (some "NOT") (fun _ => "new") =
      .ok ([.ofGroup "new" (some "f") (some 0)], rearranged) := by decide
  have houtcome : straggling.outcome (fun _ => "new") (.setFunction "f" (some "NOT")) =
      .ok (.arguments [.ofGroup "new" (some "f") (some 0)], rearranged) := by
    rw [outcome, hset]
    rfl
  obtain ⟨horder, -, -, hothers⟩ := order_of_outcome hunique hfresh houtcome
  refine ⟨hunique, hfresh, houtcome, horder, (hothers none ?_).trans (by decide)⟩
  rintro ⟨-, owner, howner, -⟩
  cases howner

end Store
end Formulary
