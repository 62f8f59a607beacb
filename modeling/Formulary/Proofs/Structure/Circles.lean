/-
# Circles of parents

From the identifier of a node the parent that the first node with it names leads one step up, whatever
else is in the store. The ancestors of a node are what the steps lead to, one by one, until there is no
further parent, the parent is missing, or it is the node itself or one that was met already. No
identifier is met twice, so that the walk is over after as many steps as there are nodes
(`Store.walkUp_eq`), and what it finds is given by the steps alone (`Store.isChain_iff`). A node is
found in a circle exactly if some number of steps leads from it back to it
(`Store.inCycle_iff_circles`); a node that hangs below a circle is in none. Where identifiers are
unique, the report says so of the nodes of all circles, and of no others (`Store.circles_reported`).

Key definitions: `Store.stepsUp`, `Store.walkUp`, `Store.IsChain`, `Store.Circles`.
Key theorems: `Store.walkUp_eq`, `Store.isChain_iff`, `Store.inCycle_iff_circles`,
`Store.circles_reported`.
-/
import Formulary.Proofs.Structure.Codes
import Formulary.Proofs.Structure.Valid

namespace Formulary
namespace Store

open Relation (TransGen ReflTransGen)

/-! ### Steps -/

/-- The parent that the first node with an identifier names. -/
def parentOf? (store : Store) (id : String) : Option String :=
  (store.get? id).bind (·.parent)

/-- Where a number of steps to parents leads to. -/
def stepsUp (store : Store) : Nat → String → Option String
  | 0, id => some id
  | n + 1, id => (store.parentOf? id).bind (store.stepsUp n)

/-- The walk from a node to its parents, round by round, past the identifiers that are `seen`; nothing if it
is not over within `limit` rounds. -/
def walkUp (store : Store) : Nat → List String → Option Node → Option (List Node)
  | 0, _, _ => none
  | limit + 1, seen, node? =>
    match node?.bind (·.parent) with
    | none => some []
    | some parent =>
      if seen.contains parent then some []
      else
        match store.get? parent with
        | none => some []
        | some node => (walkUp store limit (parent :: seen) (some node)).map (node :: ·)

/-- Whether nodes are what the steps up from an identifier lead to, one by one, up to the first that is
missing or that is among the identifiers `seen` or those met before. -/
structure IsChain (store : Store) (seen : List String) (id : String) (nodes : List Node) : Prop where
  /-- One step more than there are nodes before it leads to each node. -/
  steps : ∀ k (hk : k < nodes.length), (store.stepsUp (k + 1) id).bind store.get? = some nodes[k]
  fresh : (idsOf nodes).Nodup
  unseen : ∀ met ∈ idsOf nodes, met ∉ seen
  /-- Behind the last node the steps end, or lead to what is missing or was met. -/
  ends : ∀ next, store.stepsUp (nodes.length + 1) id = some next →
    store.get? next = none ∨ next ∈ seen ∨ next ∈ idsOf nodes

/-- Whether some number of steps to parents leads from a node back to it. -/
def Circles (store : Store) (id : String) : Prop :=
  ∃ n, 0 < n ∧ store.stepsUp n id = some id

variable {store : Store} {catalog : Option Catalog} {seen : List String} {id parent other : String}
  {node : Node} {nodes : List Node}

theorem stepsUp_one : store.stepsUp 1 id = store.parentOf? id := by
  cases hparent : store.parentOf? id <;> simp [stepsUp, hparent]

theorem stepsUp_succ (h : store.parentOf? id = some parent) (n : Nat) :
    store.stepsUp (n + 1) id = store.stepsUp n parent := by
  rw [stepsUp, h]
  rfl

/-- A chain of steps is a number of steps. -/
theorem transGen_leads_iff :
    TransGen store.Leads id other ↔ ∃ n, 0 < n ∧ store.stepsUp n id = some other := by
  constructor
  · intro h
    induction h using TransGen.head_induction_on with
    | single hstep => exact ⟨1, Nat.one_pos, stepsUp_one.trans hstep⟩
    | head hstep _ ih =>
      obtain ⟨n, -, hn⟩ := ih
      exact ⟨n + 1, n.succ_pos, (stepsUp_succ hstep n).trans hn⟩
  · rintro ⟨n, hpos, hn⟩
    induction n generalizing id with
    | zero => exact absurd hpos (Nat.lt_irrefl 0)
    | succ n ih =>
      obtain ⟨parent, hparent, hrest⟩ := Option.bind_eq_some_iff.mp hn
      cases n with
      | zero =>
        obtain rfl := Option.some.inj hrest
        exact .single hparent
      | succ n => exact .head hparent (ih n.succ_pos hrest)

/-- **A node is found in a circle exactly if it is on one.** -/
theorem inCycle_iff_circles : store.inCycle id = true ↔ store.Circles id :=
  inCycle_iff.trans transGen_leads_iff

instance (store : Store) (id : String) : Decidable (store.Circles id) :=
  decidable_of_iff _ inCycle_iff_circles

/-! ### The walk -/

/-- **The walk is over after as many rounds as there are nodes unseen**, and one more, and finds the
ancestors. -/
theorem walkUp_eq {limit fuel : Nat} (hlimit : store.countOf (fun n => n.id ∉ seen) < limit)
    (hfuel : store.countOf (fun n => n.id ∉ seen) < fuel) :
    store.walkUp limit seen (store.get? id) = some (store.ancestorsFrom fuel seen id) := by
  induction limit generalizing fuel seen id with
  | zero => omega
  | succ limit ih =>
    obtain ⟨fuel, rfl⟩ := Nat.exists_eq_succ_of_ne_zero (Nat.ne_zero_of_lt hfuel)
    rw [walkUp, ancestorsFrom]
    cases (store.get? id).bind (·.parent) with
    | none => rfl
    | some parent =>
      by_cases hseen : seen.contains parent = true
      · simp only [if_pos hseen]
      · simp only [if_neg hseen]
        cases hget : store.get? parent with
        | none => rfl
        | some node =>
          obtain ⟨hnode, rfl⟩ := mem_of_get? hget
          -- The parent is a node that was unseen and is not any more.
          have hlt := countOf_unseen_lt hnode (by simpa using hseen)
          have hrest : store.walkUp limit (node.id :: seen) (store.get? node.id) =
              some (store.ancestorsFrom fuel (node.id :: seen) node.id) :=
            ih (by omega) (by omega)
          rw [hget] at hrest
          simp only [hrest, Option.map_some]

/-! ### The chain -/

theorem isChain_nil (h : ∀ next, store.parentOf? id = some next →
    store.get? next = none ∨ next ∈ seen) : store.IsChain seen id [] where
  steps := fun k hk => absurd hk (Nat.not_lt_zero k)
  fresh := List.nodup_nil
  unseen := fun _ hmet => by cases hmet
  ends := fun next hnext => by
    rw [List.length_nil, stepsUp_one] at hnext
    exact (h next hnext).imp_right .inl

theorem IsChain.cons (hparent : store.parentOf? id = some node.id)
    (hnode : store.get? node.id = some node) (hunseen : node.id ∉ seen)
    (h : store.IsChain (node.id :: seen) node.id nodes) : store.IsChain seen id (node :: nodes) where
  steps := by
    intro k hk
    rw [stepsUp_succ hparent]
    cases k with
    | zero => exact hnode
    | succ k => exact h.steps k (Nat.lt_of_succ_lt_succ hk)
  fresh := List.nodup_cons.mpr ⟨fun hmem => h.unseen _ hmem List.mem_cons_self, h.fresh⟩
  unseen := by
    intro met hmet
    rcases List.mem_cons.mp hmet with rfl | hmet
    · exact hunseen
    · exact fun hmem => h.unseen met hmet (List.mem_cons_of_mem _ hmem)
  ends := by
    intro next hnext
    rw [stepsUp_succ hparent] at hnext
    rcases h.ends next hnext with hmissing | hseen | hmet
    · exact .inl hmissing
    · rcases List.mem_cons.mp hseen with rfl | hseen
      · exact .inr (.inr List.mem_cons_self)
      · exact .inr (.inl hseen)
    · exact .inr (.inr (List.mem_cons_of_mem _ hmet))

/-- What the walk finds is a chain. -/
theorem isChain_ancestorsFrom {fuel : Nat} (hfuel : store.countOf (fun n => n.id ∉ seen) < fuel) :
    store.IsChain seen id (store.ancestorsFrom fuel seen id) := by
  induction fuel generalizing seen id with
  | zero => omega
  | succ fuel ih =>
    rw [ancestorsFrom]
    cases hparent : (store.get? id).bind (·.parent) with
    | none => exact isChain_nil fun next hnext => by cases hparent.symm.trans hnext
    | some parent =>
      by_cases hseen : seen.contains parent = true
      · simp only [if_pos hseen]
        refine isChain_nil fun next hnext => .inr ?_
        obtain rfl := Option.some.inj (hparent.symm.trans hnext)
        simpa using hseen
      · simp only [if_neg hseen]
        cases hget : store.get? parent with
        | none =>
          refine isChain_nil fun next hnext => .inl ?_
          obtain rfl := Option.some.inj (hparent.symm.trans hnext)
          exact hget
        | some node =>
          obtain ⟨hnode, rfl⟩ := mem_of_get? hget
          have hunseen : node.id ∉ seen := by simpa using hseen
          have hlt := countOf_unseen_lt hnode hunseen
          exact (ih (by omega)).cons hparent hget hunseen

/-- A chain is not longer than another one: where the other ends, it would go on to what is missing or
was met. -/
theorem IsChain.length_le {others : List Node} (h : store.IsChain seen id nodes)
    (hothers : store.IsChain seen id others) (hagree : ∀ k (hk : k < nodes.length)
      (hk' : k < others.length), nodes[k] = others[k]) : nodes.length ≤ others.length := by
  by_contra hlt
  have hlt : others.length < nodes.length := Nat.lt_of_not_le hlt
  obtain ⟨next, hnext, hget⟩ := Option.bind_eq_some_iff.mp (h.steps others.length hlt)
  obtain ⟨-, rfl⟩ := mem_of_get? hget
  rcases hothers.ends _ hnext with hmissing | hseen | hmet
  · rw [hget] at hmissing
    cases hmissing
  · exact h.unseen _ (List.mem_map_of_mem (List.getElem_mem hlt)) hseen
  · -- What was met is the same in both chains, and the longer one does not meet it again.
    obtain ⟨m, hm, hid⟩ := List.mem_map.mp hmet
    obtain ⟨k, hk, rfl⟩ := List.mem_iff_getElem.mp hm
    rw [← hagree k (hk.trans hlt) hk] at hid
    have hbound : k < (idsOf nodes).length := by simpa [idsOf] using hk.trans hlt
    have hlast : others.length < (idsOf nodes).length := by simpa [idsOf] using hlt
    have hids : (idsOf nodes)[k] = (idsOf nodes)[others.length] := by simpa [idsOf] using hid
    have hsame : k = others.length := (List.Nodup.getElem_inj_iff h.fresh).mp hids
    exact Nat.lt_irrefl _ (hsame ▸ hk)

theorem IsChain.unique {others : List Node} (h : store.IsChain seen id nodes)
    (hothers : store.IsChain seen id others) : nodes = others := by
  have hagree : ∀ k (hk : k < nodes.length) (hk' : k < others.length), nodes[k] = others[k] :=
    fun k hk hk' => Option.some.inj ((h.steps k hk).symm.trans (hothers.steps k hk'))
  have hlength := Nat.le_antisymm (h.length_le hothers hagree)
    (hothers.length_le h fun k hk hk' => (hagree k hk' hk).symm)
  exact List.ext_getElem hlength hagree

/-- **The ancestors of a node are given by the steps alone.** -/
theorem isChain_iff : store.IsChain [id] id nodes ↔ nodes = store.ancestors id := by
  have hancestors : store.IsChain [id] id (store.ancestors id) :=
    isChain_ancestorsFrom (Nat.lt_succ_of_le (countOf_le_size _))
  exact ⟨fun h => h.unique hancestors, fun h => h ▸ hancestors⟩

/-! ### The report -/

/-- The parent of a node on a circle is a node. -/
theorem Circles.exists_parent (h : store.Circles id) :
    ∃ parent owner, store.parentOf? id = some parent ∧ store.get? parent = some owner := by
  obtain ⟨parent, hstep, hrest⟩ := TransGen.head'_iff.mp (transGen_leads_iff.mpr h)
  have howner : ∃ owner, store.get? parent = some owner := by
    rcases Relation.reflTransGen_iff_eq_or_transGen.mp hrest with rfl | hrest
    · obtain ⟨owner, howner, -⟩ := hstep.exists_get?
      exact ⟨owner, howner⟩
    · obtain ⟨_, hnext, -⟩ := TransGen.head'_iff.mp hrest
      obtain ⟨owner, howner, -⟩ := hnext.exists_get?
      exact ⟨owner, howner⟩
  obtain ⟨owner, howner⟩ := howner
  exact ⟨parent, owner, hstep, howner⟩

theorem flatMap_ite {α β : Type} (p : α → Prop) [DecidablePred p] (f : α → β) (as : List α) :
    (as.flatMap fun a => if p a then [f a] else []) = (as.filter p).map f := by
  induction as with
  | nil => rfl
  | cons a rest ih =>
    rw [List.flatMap_cons, ih, List.filter_cons]
    by_cases h : p a
    · simp [h]
    · simp [h]

/-- Of a node that has its identifier alone it is reported exactly if it is on a circle. -/
theorem filter_parentIssues (hnode : store.get? node.id = some node) :
    (store.parentIssues node).filter (·.code = "parent_cycle") =
      if store.Circles node.id then [.parentCycle node.id] else [] := by
  by_cases hcircles : store.Circles node.id
  · obtain ⟨parent, owner, hparent, howner⟩ := hcircles.exists_parent
    rw [parentOf?, hnode] at hparent
    have hparent : node.parent = some parent := hparent
    rw [if_pos hcircles, parentIssues, hparent]
    simp [howner, inCycle_iff_circles.mpr hcircles, Issue.code]
  · rw [if_neg hcircles]
    refine filter_code_eq_nil fun issue hissue hcode => hcircles (inCycle_iff_circles.mp ?_)
    unfold parentIssues at hissue
    cases hparent : node.parent with
    | none => simp [hparent] at hissue
    | some parent =>
      cases howner : store.get? parent with
      | none => simp_all [Issue.code]
      | some owner =>
        simp only [hparent, howner] at hissue
        by_contra hcycle
        rw [if_neg hcycle] at hissue
        split_ifs at hissue
        all_goals simp_all [Issue.code]

/-- **The report tells the nodes of all circles**, each once and in the order of the list, where
identifiers are unique. -/
theorem filter_structureReport (hunique : (idsOf store.nodes).Nodup) :
    (store.structureReport catalog).issues.filter (·.code = "parent_cycle") =
      (store.nodes.filter fun node => store.Circles node.id).map fun node => .parentCycle node.id := by
  have hsequence : (checkSequence store.roots).filter (·.code = "parent_cycle") = [] :=
    filter_code_eq_nil fun issue hissue hcode => by
      have hmem := code_of_mem_checkSequence hissue
      rw [hcode] at hmem
      exact absurd hmem (by decide)
  have hfunctions : ((store.nodes.filter (·.kind = .function)).flatMap store.functionIssues).filter
      (·.code = "parent_cycle") = [] :=
    filter_code_eq_nil fun issue hissue hcode => by
      obtain ⟨node, -, hissue⟩ := List.mem_flatMap.mp hissue
      have hmem := code_of_mem_functionIssues hissue
      rw [hcode] at hmem
      exact absurd hmem (by decide)
  have hnode : ∀ node ∈ store.nodes, (store.nodeIssues catalog node).filter (·.code = "parent_cycle") =
      if store.Circles node.id then [.parentCycle node.id] else [] := by
    intro node hnode
    have hargument : (store.argumentIssues node).filter (·.code = "parent_cycle") = [] :=
      filter_code_eq_nil fun issue hissue => by rw [code_of_mem_argumentIssues hissue]; decide
    have hoperator : (operatorIssues node).filter (·.code = "parent_cycle") = [] :=
      filter_code_eq_nil fun issue hissue => by rw [code_of_mem_operatorIssues hissue]; decide
    have hreference : (referenceIssues catalog node).filter (·.code = "parent_cycle") = [] :=
      filter_code_eq_nil fun issue hissue => by rw [code_of_mem_referenceIssues hissue]; decide
    rw [nodeIssues, List.filter_append, List.filter_append, List.filter_append, hargument, hoperator,
      hreference, filter_parentIssues (get?_of_unique hunique hnode)]
    simp
  rw [structureReport, integrityIssues_eq_flatMap hunique]
  simp only [List.filter_append, hsequence, hfunctions, List.append_nil]
  rw [List.filter_flatMap, List.flatMap_congr hnode, flatMap_ite]

/-- **Circles of parents are found as they are**, whatever the store holds. The walk up from a node
comes to an end and finds the ancestors; these are what the steps to parents lead to, up to the first
that is missing, the node itself, or met already. A node is found in a circle exactly if some number of
steps leads from it back to it, and where identifiers are unique the report names exactly these nodes.
-/
theorem circles_reported (store : Store) :
    (∀ id, (∀ limit, store.size < limit →
        store.walkUp limit [id] (store.get? id) = some (store.ancestors id)) ∧
      (∀ nodes, store.IsChain [id] id nodes ↔ nodes = store.ancestors id) ∧
      (store.inCycle id = true ↔ store.Circles id)) ∧
    ∀ catalog, (idsOf store.nodes).Nodup →
      (store.structureReport catalog).issues.filter (·.code = "parent_cycle") =
        (store.nodes.filter fun node => store.Circles node.id).map fun node => .parentCycle node.id := by
  refine ⟨fun id => ⟨fun limit hlimit => ?_, fun nodes => isChain_iff, inCycle_iff_circles⟩,
    fun catalog hunique => filter_structureReport hunique⟩
  have hcount := @countOf_le_size store fun n => n.id ∉ [id]
  exact walkUp_eq (hcount.trans_lt hlimit) (Nat.lt_succ_of_le hcount)

/-- A node that is its own parent, two that are each other's, one below these two, and one whose parent is
missing. -/
def looped : Store :=
  ⟨[.ofGroup "s" (some "s") none, .ofValue "x" (some "a") (some (.integer 1)),
    .ofGroup "a" (some "b") none, .ofGroup "b" (some "a") none, .ofGroup "o" (some "gone") none]⟩

theorem circles_reported_looped :
    (idsOf looped.nodes).Nodup ∧
      looped.walkUp 6 ["x"] (looped.get? "x") =
        some [.ofGroup "a" (some "b") none, .ofGroup "b" (some "a") none] ∧
      ¬looped.Circles "x" ∧
      (looped.structureReport none).issues.filter (·.code = "parent_cycle") =
        [.parentCycle "s", .parentCycle "a", .parentCycle "b"] := by
  have hunique : (idsOf looped.nodes).Nodup := by decide
  obtain ⟨hwalk, hreport⟩ := circles_reported looped
  refine ⟨hunique, ?_, ?_, ?_⟩
  · rw [(hwalk "x").1 6 (by decide)]
    decide
  · rw [← (hwalk "x").2.2]
    decide
  · rw [hreport none hunique]
    decide

end Store
end Formulary
