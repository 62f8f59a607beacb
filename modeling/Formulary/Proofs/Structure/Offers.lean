/-
# What may be added

An editor offers, for each place, the kinds of nodes that may be added there, and the report says of the
nodes of a store whether they are where they may be. The two are made apart from each other and agree: a
new node of a kind that is offered, made for its place, has nothing wrong with its links, and one of
another kind does, below a leaf and below a function without arguments (`Store.links_of_allowed`). In
one place they do not agree. A function whose identifier is the empty text is offered an argument, but
to the check of argument groups a parent without an identifier is none
(`Store.not_links_of_allowed_nameless`).

Key definitions: `Store.linkIssues`, `Store.MadeFor`, `Store.AddsIssue`.
Key theorem: `Store.links_of_allowed`.
-/
import Formulary.Proofs.Store.Order

namespace Formulary
namespace Store

/-- What the report says about identifiers and about the links between nodes. -/
def linkIssues (store : Store) (catalog : Option Catalog) : List Issue :=
  (store.structureReport catalog).issues.filter (·.code ∈ linkCodes)

/-- Whether there is a function at a place. -/
def isFunctionAt (store : Store) (place : Option String) : Bool :=
  (place.bind store.get?).map (·.kind) = some .function

/-- Whether a node is made for a place, with an identifier that occurs nowhere. A group is made as the first
argument exactly if it goes below a function. -/
structure MadeFor (store : Store) (place : Option String) (new : Node) : Prop where
  parent : new.parent = place
  unused : store.Unused new.id
  slot : new.kind = .group → new.slot = if store.isFunctionAt place then some 0 else none

/-- Whether a list of issues has one more than another, which stays in its order. -/
def AddsIssue (issues : List Issue) (issue : Issue) (more : List Issue) : Prop :=
  ∃ first rest, issues = first ++ rest ∧ more = first ++ issue :: rest

variable {store after : Store} {new owner : Node} {front behind : List Node} {catalog : Option Catalog}
  {place : Option String} {kinds : List Kind}

/-! ### What the report says about links -/

/-- Only what is wrong with the nodes one by one is about their links. -/
theorem linkIssues_eq : store.linkIssues catalog =
    (store.integrityIssues catalog).filter (·.code ∈ linkCodes) := by
  have hsequence : (checkSequence store.roots).filter (·.code ∈ linkCodes) = [] := by
    refine List.filter_eq_nil_iff.mpr fun issue hissue => ?_
    have hother : ∀ code ∈ sequenceCodes, code ∉ linkCodes := by decide
    simpa using hother _ (code_of_mem_checkSequence hissue)
  have hfunctions : ((store.nodes.filter (·.kind = .function)).flatMap store.functionIssues).filter
      (·.code ∈ linkCodes) = [] := by
    refine List.filter_eq_nil_iff.mpr fun issue hissue => ?_
    obtain ⟨node, -, hissue⟩ := List.mem_flatMap.mp hissue
    have hother : ∀ code ∈ functionCodes, code ∉ linkCodes := by decide
    simpa using hother _ (code_of_mem_functionIssues hissue)
  rw [linkIssues, structureReport, List.filter_append, List.filter_append, hsequence, hfunctions,
    List.append_nil, List.append_nil]

/-- What a node holds has nothing to do with its links. -/
theorem filter_nodeIssues (node : Node) : (store.nodeIssues catalog node).filter (·.code ∈ linkCodes) =
    store.parentIssues node ++ store.argumentIssues node := by
  have hparent : (store.parentIssues node).filter (·.code ∈ linkCodes) = store.parentIssues node :=
    List.filter_eq_self.mpr fun issue hissue => by simpa using code_of_mem_parentIssues hissue
  have hargument : (store.argumentIssues node).filter (·.code ∈ linkCodes) = store.argumentIssues node :=
    List.filter_eq_self.mpr fun issue hissue => by rw [code_of_mem_argumentIssues hissue]; decide
  have hoperator : (operatorIssues node).filter (·.code ∈ linkCodes) = [] :=
    List.filter_eq_nil_iff.mpr fun issue hissue => by rw [code_of_mem_operatorIssues hissue]; decide
  have hreference : (referenceIssues catalog node).filter (·.code ∈ linkCodes) = [] :=
    List.filter_eq_nil_iff.mpr fun issue hissue => by rw [code_of_mem_referenceIssues hissue]; decide
  simp only [nodeIssues, List.filter_append, hparent, hargument, hoperator, hreference, List.append_nil]

/-! ### What is wrong with a new node -/

theorem isFunctionAt_of_mem (hunique : (idsOf store.nodes).Nodup) (howner : owner ∈ store.nodes) :
    store.isFunctionAt (some owner.id) = decide (owner.kind = .function) := by
  rw [isFunctionAt, Option.bind_some, get?_of_unique hunique howner]
  simp

/-- A node is made as an argument exactly if it is a group that goes below a function. -/
theorem MadeFor.isArgument_eq (h : store.MadeFor place new) :
    new.isArgument = (new.kind = .group && store.isFunctionAt place) := by
  rw [Node.isArgument]
  by_cases hkind : new.kind = .group
  · rw [h.slot hkind]
    cases store.isFunctionAt place <;> rfl
  · simp [hkind]

/-- What is wrong with the links of a node that is made for a place below another one. -/
def issuesBelow (owner new : Node) : List Issue :=
  if owner.kind.isLeaf then [.leafHasChildren owner.kind owner.id new.id]
  else if owner.kind = .function then
    if new.kind = .group then if owner.id = "" then [.invalidArgumentGroup new.id] else []
    else [.invalidFunctionChild owner.function new.id]
  else []

/-- Nothing is wrong with the links of a further root. -/
theorem MadeFor.nodeIssues_root (hmade : store.MadeFor none new) (after : Store) :
    (after.nodeIssues catalog new).filter (·.code ∈ linkCodes) = [] := by
  have hargument : new.isArgument = false := by
    rw [hmade.isArgument_eq]
    simp [isFunctionAt]
  rw [filter_nodeIssues, parentIssues, hmade.parent, argumentIssues, hargument]
  rfl

/-- Below another node there is no circle above a new one, so that its kind and that of its parent decide. -/
theorem Gains.nodeIssues_below (h : store.Gains new front behind after)
    (hunique : (idsOf store.nodes).Nodup) (howner : owner ∈ store.nodes)
    (hmade : store.MadeFor (some owner.id) new) :
    (after.nodeIssues catalog new).filter (·.code ∈ linkCodes) = issuesBelow owner new := by
  have hid : owner.id ≠ new.id := fun heq => h.fresh (heq ▸ List.mem_map_of_mem howner)
  have hget : after.get? owner.id = some owner := by
    rw [h.get?_eq hid, get?_of_unique hunique howner]
  have hcycle : after.inCycle new.id = false := by
    refine h.inCycle_new hmade.unused ?_
    rw [hmade.parent]
    exact fun heq => hid (Option.some.inj heq)
  have hargument := hmade.isArgument_eq
  rw [isFunctionAt_of_mem hunique howner] at hargument
  rw [filter_nodeIssues, parentIssues, argumentIssues, hasFunctionParent, hmade.parent, hargument,
    issuesBelow]
  simp only [hget, hcycle]
  by_cases hleaf : owner.kind.isLeaf = true
  · have hfunction : ¬owner.kind = .function := fun heq => by rw [heq] at hleaf; cases hleaf
    simp [hleaf, hfunction]
  · by_cases hfunction : owner.kind = .function
    · by_cases hgroup : new.kind = .group
      · by_cases hname : owner.id = ""
        · simp [hfunction, hgroup, hname, Kind.isLeaf]
        · simp [hfunction, hgroup, hname, Kind.isLeaf]
      · simp [hfunction, hgroup, Kind.isLeaf]
    · simp [hleaf, hfunction]

/-! ### What is offered -/

theorem mem_allowedBelow_iff {kind : Kind} : kind ∈ store.allowedBelow owner ↔
    owner.kind = .group ∨ owner.kind = .function ∧ store.argumentsOf owner.id = [] ∧ kind = .group := by
  have hall : kind ∈ Kind.all := by cases kind <;> decide
  unfold allowedBelow
  cases howner : owner.kind with
  | function =>
    cases harguments : store.argumentsOf owner.id <;> simp
  | group => simp [hall]
  | _ => simp

theorem issuesBelow_of_isLeaf (h : owner.kind.isLeaf = true) :
    issuesBelow owner new = [.leafHasChildren owner.kind owner.id new.id] :=
  if_pos h

theorem issuesBelow_of_function (hfunction : owner.kind = .function) (hgroup : new.kind ≠ .group) :
    issuesBelow owner new = [.invalidFunctionChild owner.function new.id] := by
  simp [issuesBelow, hfunction, hgroup, Kind.isLeaf]

/-- Of a node whose kind is offered it is only wrong that it is the argument of a function whose identifier
is the empty text. -/
theorem issuesBelow_of_allowed (h : new.kind ∈ store.allowedBelow owner) :
    issuesBelow owner new =
      if owner.kind = .function ∧ owner.id = "" then [.invalidArgumentGroup new.id] else [] := by
  rcases mem_allowedBelow_iff.mp h with howner | ⟨howner, -, hgroup⟩
  · simp [issuesBelow, howner, Kind.isLeaf]
  · simp [issuesBelow, howner, hgroup, Kind.isLeaf]

/-- A new node can be put at the end, or behind any node. -/
theorem exists_gains_of_add (hfresh : new.id ∉ idsOf store.nodes) {place : Option String}
    (hplace : ∀ id, place = some id → id ∈ idsOf store.nodes) :
    ∃ after front behind, store.add new place = .ok after ∧ store.Gains new front behind after := by
  have hadd : ∃ after, store.add new place = .ok after := by
    cases place with
    | none =>
      refine ⟨⟨store.nodes ++ [new]⟩, ?_⟩
      rw [add, requireNew_of_notMem hfresh]
      rfl
    | some id =>
      obtain ⟨sibling, -, hrequire⟩ := exists_require (hplace id rfl)
      refine ⟨⟨putAfter id new store.nodes⟩, ?_⟩
      rw [add, requireNew_of_notMem hfresh]
      simp only [ok_bind, hrequire]
      rfl
  obtain ⟨after, hadd⟩ := hadd
  obtain ⟨front, behind, hgains, -⟩ := gains_of_add hadd
  exact ⟨after, front, behind, hadd, hgains⟩

/-- The report on links gains what is wrong with the new node. -/
theorem Gains.exists_linkIssues (h : store.Gains new front behind after) (hunused : store.Unused new.id)
    (hunique : (idsOf store.nodes).Nodup) (catalog : Option Catalog) :
    ∃ first rest, store.linkIssues catalog = first ++ rest ∧ after.linkIssues catalog =
      first ++ (after.nodeIssues catalog new).filter (·.code ∈ linkCodes) ++ rest := by
  obtain ⟨first, rest, hbefore, hafter⟩ := h.exists_integrityIssues hunused hunique catalog
  refine ⟨first.filter (·.code ∈ linkCodes), rest.filter (·.code ∈ linkCodes), ?_, ?_⟩
  · rw [linkIssues_eq, hbefore, List.filter_append]
  · rw [linkIssues_eq, hafter, List.filter_append, List.filter_append]

/-- **What is offered agrees with what is reported.** A node that is made for a place can be put
anywhere in the list. If its kind is offered at the place, nothing about links is reported that was not
reported before, unless it goes below a function whose identifier is the empty text: then the argument
group is reported. If its kind is not offered below a leaf, or below a function without arguments, just
this is reported in addition. -/
theorem links_of_allowed (hunique : (idsOf store.nodes).Nodup)
    (hkinds : store.allowedKinds place = some kinds)
    (hmade : store.MadeFor place new) (catalog : Option Catalog) (behind : Option String)
    (hbehind : ∀ id, behind = some id → id ∈ idsOf store.nodes) :
    ∃ after, store.add new behind = .ok after ∧
      (new.kind ∈ kinds → ¬(place = some "" ∧ store.isFunctionAt place = true) →
        after.linkIssues catalog = store.linkIssues catalog) ∧
      (new.kind ∈ kinds → place = some "" → store.isFunctionAt place = true →
        AddsIssue (store.linkIssues catalog) (.invalidArgumentGroup new.id) (after.linkIssues catalog)) ∧
      ∀ owner ∈ store.nodes, place = some owner.id → new.kind ∉ kinds →
        (owner.kind.isLeaf = true → AddsIssue (store.linkIssues catalog)
          (.leafHasChildren owner.kind owner.id new.id) (after.linkIssues catalog)) ∧
        (owner.kind = .function → store.argumentsOf owner.id = [] → AddsIssue (store.linkIssues catalog)
          (.invalidFunctionChild owner.function new.id) (after.linkIssues catalog)) := by
  obtain ⟨after, front, rest, hadd, hgains⟩ := exists_gains_of_add hmade.unused.1 hbehind
  obtain ⟨first, later, hbefore, hafter⟩ := hgains.exists_linkIssues hmade.unused hunique catalog
  refine ⟨after, hadd, ?_⟩
  cases place with
  | none =>
    rw [hmade.nodeIssues_root, List.append_nil] at hafter
    refine ⟨fun _ _ => hafter.trans hbefore.symm, fun _ hplace => ?_, fun _ _ hplace => ?_⟩
    · cases hplace
    · cases hplace
  | some id =>
    obtain ⟨owner, hget, rfl⟩ := Option.map_eq_some_iff.mp hkinds
    obtain ⟨howner, rfl⟩ := mem_of_get? hget
    rw [hgains.nodeIssues_below hunique howner hmade] at hafter
    rw [isFunctionAt_of_mem hunique howner, decide_eq_true_eq]
    refine ⟨fun hoffered hnamed => ?_, fun hoffered hname hfunction => ?_,
      fun other hother hid hrefused => ?_⟩
    · have hother : ¬(owner.kind = .function ∧ owner.id = "") := fun ⟨hfunction, hname⟩ =>
        hnamed ⟨congrArg some hname, hfunction⟩
      rw [issuesBelow_of_allowed hoffered, if_neg hother, List.append_nil] at hafter
      exact hafter.trans hbefore.symm
    · rw [issuesBelow_of_allowed hoffered, if_pos ⟨hfunction, Option.some.inj hname⟩] at hafter
      exact ⟨first, later, hbefore, hafter.trans (List.append_assoc ..)⟩
    · obtain rfl := List.inj_on_of_nodup_map hunique howner hother (Option.some.inj hid)
      refine ⟨fun hleaf => ?_, fun hfunction hnone => ?_⟩
      · rw [issuesBelow_of_isLeaf hleaf] at hafter
        exact ⟨first, later, hbefore, hafter.trans (List.append_assoc ..)⟩
      · have hgroup : new.kind ≠ .group := fun hgroup =>
          hrefused (mem_allowedBelow_iff.mpr (.inr ⟨hfunction, hnone, hgroup⟩))
        rw [issuesBelow_of_function hfunction hgroup] at hafter
        exact ⟨first, later, hbefore, hafter.trans (List.append_assoc ..)⟩

/-- A group that is its own parent, with a function without arguments in it, and a value whose parent is
missing. -/
def cornered : Store :=
  ⟨[.ofGroup "c" (some "c") none, .ofFunction "f" (some "c") (some "abs"),
    .ofValue "v" (some "gone") (some (.integer 1))]⟩

theorem links_of_allowed_cornered :
    (idsOf cornered.nodes).Nodup ∧
      cornered.allowedKinds (some "f") = some [.group] ∧
      cornered.MadeFor (some "f") (.ofGroup "n" (some "f") (some 0)) ∧
      (∃ after, cornered.add (.ofGroup "n" (some "f") (some 0)) (some "c") = .ok after ∧
        after.linkIssues none = cornered.linkIssues none) ∧
      cornered.allowedKinds (some "v") = some [] ∧
      cornered.MadeFor (some "v") (.ofOperator "n" (some "v") (some "+")) ∧
      ∃ after, cornered.add (.ofOperator "n" (some "v") (some "+")) none = .ok after ∧
        AddsIssue (cornered.linkIssues none) (.leafHasChildren .value "v" "n") (after.linkIssues none) := by
  have hunique : (idsOf cornered.nodes).Nodup := by decide
  have hfunction : cornered.allowedKinds (some "f") = some [.group] := by decide
  have hgroup : cornered.MadeFor (some "f") (.ofGroup "n" (some "f") (some 0)) :=
    ⟨rfl, ⟨by decide, by decide⟩, fun _ => by decide⟩
  have hvalue : cornered.allowedKinds (some "v") = some [] := by decide
  have hoperator : cornered.MadeFor (some "v") (.ofOperator "n" (some "v") (some "+")) :=
    ⟨rfl, ⟨by decide, by decide⟩, fun h => by cases h⟩
  obtain ⟨more, hadd, hsame, -⟩ :=
    links_of_allowed hunique hfunction hgroup none (some "c") fun id hid => by
      obtain rfl := Option.some.inj hid
      decide
  obtain ⟨other, hadd', -, -, hrefused⟩ :=
    links_of_allowed hunique hvalue hoperator none none fun _ h => by cases h
  refine ⟨hunique, hfunction, hgroup, ⟨more, hadd, hsame (by decide) (by decide)⟩, hvalue, hoperator,
    other, hadd', ?_⟩
  exact (hrefused (.ofValue "v" (some "gone") (some (.integer 1))) (by decide) rfl (by decide)).1 rfl

/-- A function whose identifier is the empty text is offered an argument, which is then
reported. -/
theorem not_links_of_allowed_nameless : ∃ (store after : Store) (new : Node),
    (idsOf store.nodes).Nodup ∧ store.allowedKinds (some "") = some [.group] ∧
      store.MadeFor (some "") new ∧ new.kind = .group ∧ store.add new none = .ok after ∧
        store.linkIssues none = [] ∧ after.linkIssues none = [.invalidArgumentGroup new.id] :=
  ⟨⟨[.ofFunction "" none (some "abs")]⟩,
    ⟨[.ofFunction "" none (some "abs"), .ofGroup "g" (some "") (some 0)]⟩,
    .ofGroup "g" (some "") (some 0), by decide, by decide,
    ⟨rfl, ⟨by decide, by decide⟩, fun _ => by decide⟩, rfl, by decide, by decide, by decide⟩

end Store
end Formulary
