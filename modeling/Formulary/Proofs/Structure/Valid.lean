/-
# Valid stores

The structure report is empty exactly for the stores that are well formed: the nodes are linked as those
of a formula are, what they hold is known, every function has the arguments that it takes, and operands
and operators alternate at the root (`isValid_structureReport_iff`). Several checks hide behind others,
and the cycle test follows the first node of each identifier, so that none of them alone says what its
name says; together they do. Only a parent with the empty identifier is no parent to the check of
argument groups, which is why no node may have it.

Key definition: `Store.WellFormed`.
Key theorems: `Store.intact_of_integrityIssues`, `Store.isValid_structureReport_iff`.
-/
import Formulary.Proofs.Grammar.Basic
import Formulary.Proofs.Store.Ancestors
import Formulary.Proofs.Store.Arranged
import Formulary.Proofs.Structure.Slots

namespace Formulary
namespace Store

variable {store : Store} {catalog : Option Catalog} {node : Node}

/-! ### The checks of a node -/

theorem duplicateIds_eq_nil_iff : store.duplicateIds = [] ↔ (idsOf store.nodes).Nodup := by
  have hcount : ∀ id, store.nodes.countP (·.id = id) = (idsOf store.nodes).count id := by
    intro id
    rw [idsOf, List.count, List.countP_map]
    exact List.countP_congr fun node _ => by simp
  rw [duplicateIds, List.filterMap_eq_nil_iff, List.nodup_iff_count_le_one]
  constructor
  · intro h id
    by_cases hid : id ∈ idsOf store.nodes
    · have hnone := h id (List.mem_eraseDups.mpr hid)
      simpa [hcount] using hnone
    · rw [List.count_eq_zero_of_not_mem hid]
      exact Nat.zero_le 1
  · intro h id _
    simpa [hcount] using h id

theorem parentIssues_eq_nil_iff :
    store.parentIssues node = [] ↔ ∀ id, node.parent = some id →
      ∃ owner, store.get? id = some owner ∧ store.inCycle node.id = false ∧
        owner.kind.isLeaf = false ∧ (owner.kind = .function → node.isArgument = true) := by
  unfold parentIssues
  cases node.parent with
  | none => simp
  | some id =>
    cases hget : store.get? id with
    | none => simp [hget]
    | some owner =>
      by_cases hcycle : store.inCycle node.id = true
      · simp [hget, hcycle]
      · by_cases hleaf : owner.kind.isLeaf = true
        · simp [hget, hcycle, hleaf]
        · simp [hget, hcycle, hleaf]

theorem hasFunctionParent_iff :
    store.hasFunctionParent node = true ↔ ∃ id, node.parent = some id ∧ id ≠ "" ∧
      ∃ owner, store.get? id = some owner ∧ owner.kind = .function := by
  unfold hasFunctionParent
  cases node.parent with
  | none => simp
  | some id => simp

theorem argumentIssues_eq_nil_iff :
    store.argumentIssues node = [] ↔
      (node.isArgument = true → store.hasFunctionParent node = true) := by
  unfold argumentIssues
  by_cases hargument : node.isArgument = true
  · by_cases hparent : store.hasFunctionParent node = true
    · simp [hargument, hparent]
    · simp [hargument, hparent]
  · simp [hargument]

theorem operatorIssues_eq_nil_iff :
    operatorIssues node = [] ↔ (node.kind = .operator →
      ∃ symbol, node.operator = some symbol ∧ isOperator symbol = true) := by
  have hempty : isOperator "" = false := by decide
  unfold operatorIssues
  by_cases hkind : node.kind = .operator
  · cases hsymbol : node.operator with
    | none => simp [hkind, hempty]
    | some symbol => simp [hkind]
  · simp [hkind]

theorem referenceIssues_eq_nil_iff :
    referenceIssues catalog node = [] ↔ (node.kind = .reference →
      ∃ id, node.reference = some id ∧ id ≠ "" ∧
        ∀ c, catalog = some c → (c.lookup? id).isSome = true) := by
  unfold referenceIssues
  by_cases hkind : node.kind = .reference
  · cases hid : node.reference with
    | none => simp [hkind]
    | some id =>
      by_cases hempty : id = ""
      · simp [hkind, hempty]
      · cases catalog with
        | none => simp [hkind, hempty]
        | some c => simp [hkind, hempty, Option.isSome_iff_ne_none]
  · simp [hkind]

/-! ### The check of a function -/

/-- The slots of the arguments are those that the children have, if all children are arguments. -/
theorem slotsOf_perm {id : String} (h : ∀ child ∈ store.childrenOf id, child.isArgument = true) :
    (store.slotsOf id).Perm ((store.childrenOf id).filterMap (·.slot)) := by
  have hfilter : (store.childrenOf id).filter (·.isArgument) = store.childrenOf id :=
    List.filter_eq_self.mpr h
  have hslots : (store.childrenOf id).filterMap (·.slot) =
      (store.childrenOf id).map (·.slot.getD 0) := by
    rw [← List.filterMap_eq_map]
    refine List.filterMap_congr fun child hchild => ?_
    obtain ⟨-, slot, hslot⟩ := Node.isArgument_iff.mp (h child hchild)
    simp [hslot]
  rw [hslots, slotsOf, argumentsOf, hfilter]
  exact (sortBy_perm _ _).map _

theorem pairwise_slotsOf (id : String) : (store.slotsOf id).Pairwise (· ≤ ·) := by
  rw [slotsOf, List.pairwise_map]
  exact pairwise_argumentsOf id

theorem functionIssues_eq_nil_iff
    (h : ∀ child ∈ store.childrenOf node.id, child.isArgument = true) :
    store.functionIssues node = [] ↔ ∃ name signature, node.function = some name ∧
      Signature.find? name = some signature ∧
        signature.arity.Takes ((store.childrenOf node.id).filterMap (·.slot)) := by
  have hperm := slotsOf_perm h
  unfold functionIssues
  cases hname : node.function with
  | none => simp
  | some name =>
    rw [Option.bind_some]
    cases hsignature : Signature.find? name with
    | none => simp [hsignature]
    | some signature =>
      rw [slotIssues_eq_nil_iff (pairwise_slotsOf node.id)]
      constructor
      · exact fun htakes => ⟨name, signature, rfl, hsignature, htakes.perm hperm⟩
      · rintro ⟨_, _, hn, hs, htakes⟩
        obtain rfl := Option.some.inj hn
        obtain rfl := Option.some.inj (hsignature.symm.trans hs)
        exact htakes.perm hperm.symm

/-! ### The report -/

/-- Whether a store has the shape of a formula. Its references are looked up in the catalog if there is
one. -/
structure WellFormed (catalog : Option Catalog) (store : Store) : Prop extends Intact store where
  operator : ∀ node ∈ store.nodes, node.kind = .operator →
    ∃ symbol, node.operator = some symbol ∧ isOperator symbol = true
  reference : ∀ node ∈ store.nodes, node.kind = .reference →
    ∃ id, node.reference = some id ∧ id ≠ "" ∧
      ∀ c, catalog = some c → (c.lookup? id).isSome = true
  /-- A function is known and has an argument in each of its slots, and no other. -/
  function : ∀ node ∈ store.nodes, node.kind = .function →
    ∃ name signature, node.function = some name ∧ Signature.find? name = some signature ∧
      signature.arity.Takes ((store.childrenOf node.id).filterMap (·.slot))
  /-- Operands and operators alternate at the root. -/
  roots : store.roots = [] ∨ Role.alternates (store.roots.map Node.role) = true

theorem checkSequence_roots_eq_nil_iff :
    checkSequence store.roots = [] ↔
      store.roots = [] ∨ Role.alternates (store.roots.map Node.role) = true := by
  rw [← checkSequence_eq_nil_iff]
  by_cases hroots : store.roots = []
  · simp [hroots, checkSequence, lacksOperands, brokenPairs, missingOperands]
  · simp [hroots]

/-- Nothing is wrong with a store if no check finds anything. -/
theorem isValid_structureReport_iff_checks :
    (store.structureReport catalog).isValid = true ↔
      store.duplicateIds = [] ∧ (∀ node ∈ store.nodes, store.parentIssues node = [] ∧
        store.argumentIssues node = [] ∧ operatorIssues node = [] ∧
          referenceIssues catalog node = []) ∧
        checkSequence store.roots = [] ∧
          ∀ node ∈ store.nodes, node.kind = .function → store.functionIssues node = [] := by
  simp only [StructureReport.isValid, structureReport, integrityIssues, List.isEmpty_iff,
    List.append_eq_nil_iff, List.flatMap_eq_nil_iff, List.mem_filter, decide_eq_true_eq, and_imp,
    and_assoc]

/-- Nothing is wrong with the parent of a node of an intact store. -/
theorem Intact.parentIssues_eq_nil (h : store.Intact) (hnode : node ∈ store.nodes) :
    store.parentIssues node = [] := by
  refine parentIssues_eq_nil_iff.mpr fun id hparent => ?_
  obtain ⟨owner, howner, rfl⟩ := h.parents node hnode id hparent
  have hchild : node ∈ store.childrenOf owner.id := mem_childrenOf.mpr ⟨hnode, hparent⟩
  refine ⟨owner, get?_of_unique h.unique howner, ?_, ?_,
    fun hkind => h.arguments owner howner hkind node hchild⟩
  · by_contra hcycle
    have hleads := inCycle_iff.mp (by simpa using hcycle)
    have hstep : store.Leads ≤ store.ParentOf := fun _ _ => Leads.parentOf
    exact h.acyclic node.id (Relation.TransGen.mono hstep _ _ hleads)
  · by_contra hleaf
    rw [h.leaf owner howner (by simpa using hleaf)] at hchild
    cases hchild

/-- If all nodes have a name, so have their parents. -/
theorem Intact.parent_ne_empty (h : store.Intact) (hnamed : ∀ node ∈ store.nodes, node.id ≠ "")
    (hnode : node ∈ store.nodes) : node.parent ≠ some "" := by
  intro hparent
  obtain ⟨owner, howner, hid⟩ := h.parents node hnode "" hparent
  exact hnamed owner howner hid

/-- Nothing is wrong with an argument group of an intact store. -/
theorem Intact.argumentIssues_eq_nil_of_parent (h : store.Intact) (hnode : node ∈ store.nodes)
    (hparent : node.parent ≠ some "") : store.argumentIssues node = [] := by
  refine argumentIssues_eq_nil_iff.mpr fun hargument => hasFunctionParent_iff.mpr ?_
  obtain ⟨owner, howner, hof, hkind⟩ := h.argument node hnode hargument
  have hid : owner.id ≠ "" := fun hid => hparent (hid ▸ hof)
  exact ⟨owner.id, hof, hid, owner, get?_of_unique h.unique howner, hkind⟩

theorem Intact.argumentIssues_eq_nil (h : store.Intact)
    (hnamed : ∀ node ∈ store.nodes, node.id ≠ "") (hnode : node ∈ store.nodes) :
    store.argumentIssues node = [] :=
  h.argumentIssues_eq_nil_of_parent hnode (h.parent_ne_empty hnamed hnode)

/-- It is enough that the parents have names. -/
theorem WellFormed.isValid_of_parents (h : store.WellFormed catalog)
    (hparents : ∀ node ∈ store.nodes, node.parent ≠ some "") :
    (store.structureReport catalog).isValid = true := by
  refine isValid_structureReport_iff_checks.mpr ⟨duplicateIds_eq_nil_iff.mpr h.unique,
    fun node hnode => ⟨h.parentIssues_eq_nil hnode,
      h.argumentIssues_eq_nil_of_parent hnode (hparents node hnode), ?_, ?_⟩,
    checkSequence_roots_eq_nil_iff.mpr h.roots, fun node hnode hkind => ?_⟩
  · exact operatorIssues_eq_nil_iff.mpr (h.operator node hnode)
  · exact referenceIssues_eq_nil_iff.mpr (h.reference node hnode)
  · exact (functionIssues_eq_nil_iff (h.arguments node hnode hkind)).mpr (h.function node hnode hkind)

theorem WellFormed.isValid (h : store.WellFormed catalog) (hnamed : ∀ node ∈ store.nodes, node.id ≠ "") :
    (store.structureReport catalog).isValid = true :=
  h.isValid_of_parents fun _ hnode => h.parent_ne_empty hnamed hnode

theorem integrityIssues_eq_nil_iff :
    store.integrityIssues catalog = [] ↔
      store.duplicateIds = [] ∧ ∀ node ∈ store.nodes, store.parentIssues node = [] ∧
        store.argumentIssues node = [] ∧ operatorIssues node = [] ∧
          referenceIssues catalog node = [] := by
  simp only [integrityIssues, List.append_eq_nil_iff, List.flatMap_eq_nil_iff, and_assoc]

/-- **A store in which no check of the links finds anything is intact.** -/
theorem intact_of_integrityIssues (h : store.integrityIssues catalog = []) : store.Intact := by
  obtain ⟨hduplicates, hnodes⟩ := integrityIssues_eq_nil_iff.mp h
  have hunique := duplicateIds_eq_nil_iff.mp hduplicates
  have hparent : ∀ node ∈ store.nodes, ∀ id, node.parent = some id →
      ∃ owner ∈ store.nodes, owner.id = id ∧ store.inCycle node.id = false ∧
        owner.kind.isLeaf = false ∧ (owner.kind = .function → node.isArgument = true) := by
    intro node hnode id hid
    obtain ⟨owner, howner, hrest⟩ := parentIssues_eq_nil_iff.mp (hnodes node hnode).1 id hid
    obtain ⟨hmem, heq⟩ := mem_of_get? howner
    exact ⟨owner, hmem, heq, hrest⟩
  -- Among unique identifiers the parent of a child is the node itself.
  have hchild : ∀ node ∈ store.nodes, ∀ child ∈ store.childrenOf node.id,
      node.kind.isLeaf = false ∧ (node.kind = .function → child.isArgument = true) := by
    intro node hnode child hchild
    obtain ⟨hmem, hid⟩ := mem_childrenOf.mp hchild
    obtain ⟨owner, howner, heq, -, hrest⟩ := hparent child hmem node.id hid
    rw [List.inj_on_of_nodup_map hunique howner hnode heq] at hrest
    exact hrest
  exact {
    unique := hunique
    parents := fun node hnode id hid => by
      obtain ⟨owner, howner, heq, -⟩ := hparent node hnode id hid
      exact ⟨owner, howner, heq⟩
    acyclic := fun id hcycle => by
      have hstep : store.ParentOf ≤ store.Leads := fun _ _ => (parentOf_iff_leads hunique).mp
      obtain ⟨_, ⟨node, hnode, rfl, hid⟩, -⟩ := Relation.TransGen.head'_iff.mp hcycle
      obtain ⟨_, -, -, hfalse, -⟩ := hparent node hnode _ hid
      rw [inCycle_iff.mpr (Relation.TransGen.mono hstep _ _ hcycle)] at hfalse
      cases hfalse
    leaf := fun node hnode hleaf => List.eq_nil_iff_forall_not_mem.mpr fun child hmem => by
      rw [(hchild node hnode child hmem).1] at hleaf
      cases hleaf
    arguments := fun node hnode hkind child hmem => (hchild node hnode child hmem).2 hkind
    argument := fun node hnode hargument => by
      have hfunction := argumentIssues_eq_nil_iff.mp (hnodes node hnode).2.1 hargument
      obtain ⟨id, hid, -, owner, howner, hkind⟩ := hasFunctionParent_iff.mp hfunction
      obtain ⟨hmem, rfl⟩ := mem_of_get? howner
      exact ⟨owner, hmem, hid, hkind⟩ }

theorem wellFormed_of_isValid (h : (store.structureReport catalog).isValid = true) :
    store.WellFormed catalog := by
  obtain ⟨hduplicates, hnodes, hroots, hfunctions⟩ := isValid_structureReport_iff_checks.mp h
  have hintact := intact_of_integrityIssues (integrityIssues_eq_nil_iff.mpr ⟨hduplicates, hnodes⟩)
  exact {
    toIntact := hintact
    operator := fun node hnode => operatorIssues_eq_nil_iff.mp (hnodes node hnode).2.2.1
    reference := fun node hnode => referenceIssues_eq_nil_iff.mp (hnodes node hnode).2.2.2
    function := fun node hnode hkind =>
      (functionIssues_eq_nil_iff (hintact.arguments node hnode hkind)).mp
        (hfunctions node hnode hkind)
    roots := checkSequence_roots_eq_nil_iff.mp hroots }

/-- **A store without a node that has the empty identifier is valid if and only if it is well
formed.** -/
theorem isValid_structureReport_iff (store : Store) (catalog : Option Catalog)
    (hnamed : ∀ node ∈ store.nodes, node.id ≠ "") :
    (store.structureReport catalog).isValid = true ↔ store.WellFormed catalog :=
  ⟨wellFormed_of_isValid, fun h => h.isValid hnamed⟩

/-- The arguments of a function in a well-formed store are in the slots from zero on. -/
theorem WellFormed.slots (h : store.WellFormed catalog) (hnode : node ∈ store.nodes)
    (hkind : node.kind = .function) : ((store.childrenOf node.id).map (·.slot)).Perm
      ((List.range (store.childrenOf node.id).length).map fun slot : Nat => some (slot : Int)) := by
  obtain ⟨name, signature, -, -, htakes⟩ := h.function node hnode hkind
  have hsome : (store.childrenOf node.id).map (·.slot) =
      ((store.childrenOf node.id).filterMap (·.slot)).map some := by
    rw [List.map_filterMap, ← List.filterMap_eq_map]
    refine List.filterMap_congr fun child hchild => ?_
    obtain ⟨-, slot, hslot⟩ := Node.isArgument_iff.mp (h.arguments node hnode hkind child hchild)
    show some child.slot = child.slot.map some
    rw [hslot]
    rfl
  obtain ⟨count, hperm⟩ := htakes.exists_perm
  have hlength := (hperm.map some).length_eq
  rw [← hsome, List.length_map, List.length_map, length_firstSlots] at hlength
  rw [hsome, hlength]
  refine (hperm.map some).trans (List.Perm.of_eq ?_)
  rw [firstSlots, List.map_map]
  rfl

/-- What a node of a well-formed store holds can be expressed, once its reference and its value can. -/
theorem WellFormed.sound (h : store.WellFormed catalog) {c : Catalog} (hnode : node ∈ store.nodes)
    (hreference : node.kind = .reference → ∀ id, node.reference = some id → id ≠ "" → c.Resolves id)
    (hvalue : node.kind = .value → ∃ n, node.value = some n ∧ n.Plain) : node.Sound c := by
  unfold Node.Sound
  cases hkind : node.kind with
  | reference =>
    obtain ⟨id, hid, hne, -⟩ := h.reference node hnode hkind
    exact ⟨id, hid, hne, hreference hkind id hid hne⟩
  | operator => exact h.operator node hnode hkind
  | value => exact hvalue hkind
  | function =>
    obtain ⟨name, signature, hname, hsignature, -⟩ := h.function node hnode hkind
    exact ⟨name, hname, Option.isSome_iff_exists.mpr ⟨signature, hsignature⟩⟩
  | group => trivial

/-- **A well-formed store is arranged**, once its values have numbers. -/
theorem WellFormed.arranged (h : store.WellFormed catalog)
    (hvalue : ∀ node ∈ store.nodes, node.kind = .value → node.value.isSome = true) :
    store.Arranged where
  toIntact := h.toIntact
  reference := fun node hnode hkind => by
    obtain ⟨id, hid, -⟩ := h.reference node hnode hkind
    rw [hid]
    rfl
  operator := fun node hnode hkind => by
    obtain ⟨symbol, hsymbol, -⟩ := h.operator node hnode hkind
    rw [hsymbol]
    rfl
  value := hvalue
  function := fun node hnode hkind => by
    obtain ⟨name, signature, hname, -⟩ := h.function node hnode hkind
    rw [hname]
    rfl
  slots := fun _ hnode hkind => h.slots hnode hkind

/-- A call of `AND` with its arguments in reverse. -/
def conjunction : Store :=
  ⟨[.ofGroup "second" (some "and") (some 1), .ofReference "x" (some "second") (some "a"),
    .ofOperator "more" (some "second") (some ">"), .ofValue "one" (some "second") (some (.integer 1)),
    .ofFunction "and" none (some "AND"), .ofGroup "first" (some "and") (some 0),
    .ofReference "y" (some "first") (some "a")]⟩

theorem wellFormed_conjunction : (∀ node ∈ conjunction.nodes, node.id ≠ "") ∧
    (conjunction.structureReport (some [⟨"a", "A", none⟩])).isValid = true ∧
      conjunction.WellFormed (some [⟨"a", "A", none⟩]) :=
  ⟨by decide, by decide, (isValid_structureReport_iff _ _ (by decide)).mp (by decide)⟩

end Store
end Formulary
