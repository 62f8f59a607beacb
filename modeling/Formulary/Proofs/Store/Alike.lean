/-
# Stores that are alike

Two stores are alike if their lists agree node for node, whatever the identifiers are: in the kind, in
the place of the parent in the list, and in the fields, where numbers count by their value. The list of
a forest is determined by its outline up to the identifiers, and settling the numbers of the outline
leaves it alike (`alike_of_outlines`).

Key definitions: `Number.Equals`, `Node.Alike`, `Store.Alike`, `Node.bare`, `Outline.entries`.
Key theorem: `Store.alike_of_outlines`.
-/
import Mathlib.Data.List.Forall2
import Formulary.Proofs.Tree.Forest
import Formulary.Session

namespace Formulary

/-- Whether two numbers are finite and have one value. -/
def Number.Equals (m n : Number) : Prop :=
  ∃ q, m.value? = some q ∧ n.value? = some q

namespace Node

/-- Whether two nodes agree in their kind and their fields, leaving out identifiers and parents. -/
structure Alike (a b : Node) : Prop where
  kind : a.kind = b.kind
  reference : a.reference = b.reference
  operator : a.operator = b.operator
  function : a.function = b.function
  value : Option.Rel Number.Equals a.value b.value
  slot : a.slot = b.slot

/-- A node with no other field than the one that goes with its kind. -/
def bare (node : Node) : Node :=
  node.renamed node.id

/-- What a node holds, without its identifier and its parent. -/
def content (node : Node) : Node :=
  { node.renamed "" with parent := none }

@[simp] theorem bare_id (node : Node) : node.bare.id = node.id := by
  unfold bare renamed
  cases node.kind <;> rfl

@[simp] theorem bare_parent (node : Node) : node.bare.parent = node.parent := by
  unfold bare renamed
  cases node.kind <;> rfl

theorem alike_bare {a b : Node} (h : a.content.Alike b.content) : a.bare.Alike b.bare := by
  obtain ⟨_, kind, _⟩ := a
  obtain ⟨_, kind', _⟩ := b
  obtain rfl : kind = kind' := by
    have hkind := h.kind
    cases kind <;> cases kind' <;> first | rfl | cases hkind
  cases kind <;> exact ⟨h.kind, h.reference, h.operator, h.function, h.value, h.slot⟩

end Node

namespace Store

/-- The place in the list of the first node with an identifier. -/
def place (store : Store) (id : String) : Nat :=
  store.nodes.findIdx (·.id = id)

/-- Whether two stores agree node for node: in their kinds, in their fields, and in the places of their
parents in the list. -/
def Alike (store other : Store) : Prop :=
  List.Forall₂ (fun a b => a.Alike b ∧ a.parent.map store.place = b.parent.map other.place)
    store.nodes other.nodes

/-- What a node holds, and the place of its parent. -/
def entry (store : Store) (node : Node) : Node × Option Nat :=
  (node.content, node.parent.map store.place)

/-- The place of a node is the number of nodes before it. -/
theorem place_eq_length {store : Store} {node : Node} (front behind : List Node)
    (hstore : store.nodes = front ++ node :: behind) (hnodup : (idsOf store.nodes).Nodup) :
    store.place node.id = front.length := by
  rw [hstore, idsOf, List.map_append, List.map_cons] at hnodup
  obtain ⟨-, -, hdisjoint⟩ := List.nodup_append.mp hnodup
  have hfront : front.findIdx (·.id = node.id) = front.length := by
    rw [List.findIdx_eq_length]
    intro n hn
    have hne : n.id ≠ node.id := hdisjoint _ (List.mem_map_of_mem hn) _ List.mem_cons_self
    simpa using hne
  rw [place, hstore, List.findIdx_append, hfront, if_neg (Nat.lt_irrefl _), List.findIdx_cons]
  simp

end Store

/-! ### The list of an outline -/

namespace Outline

mutual

/-- The nodes of a part of a formula whose parent has a place, from the place `k` on. -/
def entries (parent : Option Nat) (k : Nat) : Outline → List (Node × Option Nat)
  | reference id => [(.ofReference "" none (some id), parent)]
  | operator symbol => [(.ofOperator "" none (some symbol), parent)]
  | value number => [(.ofValue "" none (some number), parent)]
  | call name arguments => (.ofFunction "" none (some name), parent) :: argumentEntries k 0 (k + 1) arguments
  | group body => (.ofGroup "" none none, parent) :: sequenceEntries (some k) (k + 1) body

/-- The nodes of a sequence. -/
def sequenceEntries (parent : Option Nat) (k : Nat) : List Outline → List (Node × Option Nat)
  | [] => []
  | o :: rest =>
    entries parent k o ++ sequenceEntries parent (k + (entries parent k o).length) rest

/-- The nodes of arguments from a slot on, of a call at the place `owner`. -/
def argumentEntries (owner slot k : Nat) : List (List Outline) → List (Node × Option Nat)
  | [] => []
  | argument :: rest =>
    (.ofGroup "" none (some slot), some owner) :: sequenceEntries (some k) (k + 1) argument ++
      argumentEntries owner (slot + 1) (k + 1 + (sequenceEntries (some k) (k + 1) argument).length) rest

end

/-- Whether two entries hold alike nodes at one place. -/
def EntryAlike (a b : Node × Option Nat) : Prop :=
  a.1.Alike b.1 ∧ a.2 = b.2

theorem entryAlike_of_value_eq_none {node : Node} {parent : Option Nat} (h : node.value = none) :
    EntryAlike (node, parent) (node, parent) :=
  ⟨⟨rfl, rfl, rfl, rfl, by rw [h]; exact .none, rfl⟩, rfl⟩

variable {catalog : Catalog}

mutual

theorem entries_settled (parent : Option Nat) (k : Nat) : ∀ {o : Outline}, o.Sound catalog →
    (∀ q ∈ o.inner, ∀ u ∈ q, u.Sound catalog) →
    List.Forall₂ EntryAlike (entries parent k o) (entries parent k o.settled)
  | reference _, _, _ => .cons (entryAlike_of_value_eq_none rfl) .nil
  | operator _, _, _ => .cons (entryAlike_of_value_eq_none rfl) .nil
  | value number, h, _ => by
    obtain ⟨q, hq⟩ := Number.exists_value_of_plain h
    have hequals : number.Equals number.settled := ⟨q, hq, (Number.value?_settled number).trans hq⟩
    exact .cons ⟨⟨rfl, rfl, rfl, rfl, .some hequals, rfl⟩, rfl⟩ .nil
  | call _ arguments, _, h =>
    .cons (entryAlike_of_value_eq_none rfl) (argumentEntries_settled k 0 (k + 1) h)
  | group body, _, h =>
    .cons (entryAlike_of_value_eq_none rfl) (sequenceEntries_settled (some k) (k + 1)
      (h body List.mem_cons_self) fun q hq => h q (List.mem_cons_of_mem _ hq))

/-- Settled numbers have the values of the numbers. -/
theorem sequenceEntries_settled (parent : Option Nat) (k : Nat) : ∀ {os : List Outline},
    (∀ o ∈ os, o.Sound catalog) → (∀ q ∈ sequenceInner os, ∀ u ∈ q, u.Sound catalog) →
    List.Forall₂ EntryAlike (sequenceEntries parent k os) (sequenceEntries parent k (sequenceSettled os))
  | [], _, _ => .nil
  | o :: rest, h, hinner => by
    have ho := entries_settled parent k (h o List.mem_cons_self)
      fun q hq => hinner q (List.mem_append_left _ hq)
    have ih := sequenceEntries_settled parent (k + (entries parent k o).length)
      (fun u hu => h u (List.mem_cons_of_mem _ hu)) fun q hq => hinner q (List.mem_append_right _ hq)
    rw [sequenceSettled, sequenceEntries, sequenceEntries, ← ho.length_eq]
    exact List.rel_append ho ih

theorem argumentEntries_settled (owner slot k : Nat) : ∀ {as : List (List Outline)},
    (∀ q ∈ argumentInner as, ∀ u ∈ q, u.Sound catalog) →
    List.Forall₂ EntryAlike (argumentEntries owner slot k as)
      (argumentEntries owner slot k (argumentSettled as))
  | [], _ => .nil
  | a :: rest, h => by
    have ha := sequenceEntries_settled (some k) (k + 1) (h a List.mem_cons_self)
      fun q hq => h q (List.mem_cons_of_mem _ (List.mem_append_left _ hq))
    have ih := argumentEntries_settled owner (slot + 1)
      (k + 1 + (sequenceEntries (some k) (k + 1) a).length)
      fun q hq => h q (List.mem_cons_of_mem _ (List.mem_append_right _ hq))
    rw [argumentSettled, argumentEntries, argumentEntries, ← ha.length_eq]
    exact .cons (entryAlike_of_value_eq_none rfl) (List.rel_append ha ih)

end

end Outline

/-! ### The list of a forest -/

namespace Store

open Formulary.Tree

mutual

theorem entries_preorder {store : Store} (hnodup : (idsOf store.nodes).Nodup) :
    ∀ {t : Tree} (front behind : List Node) {parent : Option String}, t.Regular → t.Linked parent →
    store.nodes = front ++ t.preorder ++ behind →
    t.preorder.map store.entry = t.outline.entries (parent.map store.place) front.length
  | .mk node children, front, behind, parent, h, hlinked, hstore => by
    obtain ⟨hparent, hchildren⟩ := hlinked
    have hplace : store.place node.id = front.length :=
      place_eq_length front (preorderAll children ++ behind) (by rw [hstore]; simp [preorder]) hnodup
    have hbelow : store.nodes = (front ++ [node]) ++ preorderAll children ++ behind := by
      rw [hstore]
      simp [preorder]
    have hlength : (front ++ [node]).length = front.length + 1 := List.length_append
    unfold Regular at h
    rw [preorder, List.map_cons, entry, hparent]
    unfold outline Node.content Node.renamed
    split at h
    · next hkind =>
      obtain ⟨id, hid⟩ := Option.isSome_iff_exists.mp h.1
      simp [hkind, h.2, hid, preorderAll, Outline.entries, Node.ofReference]
    · next hkind =>
      obtain ⟨symbol, hsymbol⟩ := Option.isSome_iff_exists.mp h.1
      simp [hkind, h.2, hsymbol, preorderAll, Outline.entries, Node.ofOperator]
    · next hkind =>
      obtain ⟨number, hnumber⟩ := Option.isSome_iff_exists.mp h.1
      simp [hkind, h.2, hnumber, preorderAll, Outline.entries, Node.ofValue]
    · next hkind =>
      obtain ⟨name, hname⟩ := Option.isSome_iff_exists.mp h.1
      have ih := argumentEntries_preorder hnodup _ behind h.2 hchildren hbelow
      rw [hplace, hlength] at ih
      simp [hkind, hname, ih, Outline.entries, Node.ofFunction]
    · next hkind =>
      have ih := sequenceEntries_preorder hnodup _ behind h.2 hchildren hbelow
      rw [Option.map_some, hplace, hlength] at ih
      simp [hkind, h.1, ih, Outline.entries, Node.ofGroup]

/-- The list of a regular forest is that of its outline. -/
theorem sequenceEntries_preorder {store : Store} (hnodup : (idsOf store.nodes).Nodup) :
    ∀ {ts : List Tree} (front behind : List Node) {parent : Option String}, RegularAll ts →
    LinkedAll parent ts → store.nodes = front ++ preorderAll ts ++ behind →
    (preorderAll ts).map store.entry =
      Outline.sequenceEntries (parent.map store.place) front.length (outlines ts)
  | [], _, _, _, _, _, _ => rfl
  | t :: rest, front, behind, parent, h, hlinked, hstore => by
    rw [preorderAll] at hstore
    have ht := entries_preorder hnodup front (preorderAll rest ++ behind) h.1 hlinked.1
      (by rw [hstore]; simp)
    have ih := sequenceEntries_preorder hnodup (front ++ t.preorder) behind h.2 hlinked.2
      (by rw [hstore]; simp)
    have hlength := congrArg List.length ht
    rw [List.length_map] at hlength
    rw [preorderAll, List.map_append, ht, ih, List.length_append, hlength, outlines,
      Outline.sequenceEntries]

theorem argumentEntries_preorder {store : Store} (hnodup : (idsOf store.nodes).Nodup) :
    ∀ {slot : Nat} {ts : List Tree} (front behind : List Node) {owner : String},
    RegularArguments slot ts → LinkedAll (some owner) ts →
    store.nodes = front ++ preorderAll ts ++ behind →
    (preorderAll ts).map store.entry =
      Outline.argumentEntries (store.place owner) slot front.length (argumentOutlines ts)
  | _, [], _, _, _, _, _, _ => rfl
  | slot, .mk node children :: rest, front, behind, owner, h, hlinked, hstore => by
    obtain ⟨hkind, hslot, hregular, hrest⟩ := h
    obtain ⟨⟨hparent, hchildren⟩, hlinked⟩ := hlinked
    have hplace : store.place node.id = front.length :=
      place_eq_length front (preorderAll children ++ preorderAll rest ++ behind)
        (by rw [hstore]; simp [preorder, preorderAll]) hnodup
    have hbody := sequenceEntries_preorder hnodup (front ++ [node]) (preorderAll rest ++ behind)
      hregular hchildren
      (by rw [hstore]; simp [preorder, preorderAll])
    have ih := argumentEntries_preorder hnodup (front ++ node :: preorderAll children) behind
      hrest hlinked (by rw [hstore]; simp [preorder, preorderAll])
    have hlength := congrArg List.length hbody
    rw [List.length_map] at hlength
    rw [Option.map_some, hplace, List.length_append, List.length_singleton] at hbody hlength
    rw [List.length_append, List.length_cons, hlength, ← Nat.add_assoc,
      Nat.add_right_comm] at ih
    rw [preorderAll, preorder, List.map_append, List.map_cons, hbody, ih, argumentOutlines,
      Outline.argumentEntries, entry, hparent, Node.content, Node.renamed, hkind]
    simp [hslot, Node.ofGroup]

end

/-- The list of a forest without parents is that of its outline from the first place on. -/
theorem map_entry_preorder {ts : List Tree} (h : RegularAll ts) (hlinked : LinkedAll none ts)
    (hnodup : (idsOf (preorderAll ts)).Nodup) :
    (preorderAll ts).map (Store.mk (preorderAll ts)).entry =
      Outline.sequenceEntries none 0 (outlines ts) :=
  @sequenceEntries_preorder ⟨preorderAll ts⟩ hnodup ts [] [] none h hlinked
    (List.append_nil _).symm

theorem place_bare (nodes : List Node) (id : String) :
    (Store.mk (nodes.map Node.bare)).place id = (Store.mk nodes).place id := by
  rw [place, place, List.findIdx_map]
  congr 1
  funext node
  simp

/-- **Forests whose outlines differ in settled numbers only have lists that are alike.** -/
theorem alike_of_outlines (catalog : Catalog) {ts us : List Tree} (hts : RegularAll ts)
    (hus : RegularAll us) (htsLinked : LinkedAll none ts) (husLinked : LinkedAll none us)
    (htsNodup : (idsOf (preorderAll ts)).Nodup) (husNodup : (idsOf (preorderAll us)).Nodup)
    (hprintable : Outline.Printable catalog (outlines ts))
    (houtlines : outlines us = Outline.sequenceSettled (outlines ts)) :
    (Store.mk ((preorderAll ts).map Node.bare)).Alike ⟨(preorderAll us).map Node.bare⟩ := by
  have hentries := Outline.sequenceEntries_settled none 0 (hprintable _ List.mem_cons_self)
    fun q hq => hprintable q (List.mem_cons_of_mem _ hq)
  rw [← houtlines, ← map_entry_preorder hts htsLinked htsNodup,
    ← map_entry_preorder hus husLinked husNodup, List.forall₂_map_left_iff, List.forall₂_map_right_iff] at hentries
  rw [Alike, List.forall₂_map_left_iff, List.forall₂_map_right_iff]
  refine hentries.imp fun a b h => ⟨Node.alike_bare h.1, ?_⟩
  have hplace : a.parent.map (Store.mk (preorderAll ts)).place =
      b.parent.map (Store.mk (preorderAll us)).place := h.2
  simpa only [Node.bare_parent, place_bare, funext (place_bare _)] using hplace

end Store
end Formulary
