/-
# What the structure report can say

The structure report has three parts, and each has issues of its own: about identifiers, parents and what
the nodes hold; about the sequence of the roots; and about the arguments of functions. So the code of an
issue tells which part it comes from (`Store.mem_checkSequence_of_code`).

Key definitions: `Store.integrityCodes`, `Store.linkCodes`, `Store.nodeIssues`, `Store.functionCodes`.
Key theorems: `Store.code_of_mem_integrityIssues`, `Store.code_of_mem_functionIssues`,
`Store.mem_checkSequence_of_code`.
-/
import Formulary.Proofs.Typing.Codes

namespace Formulary
namespace Store

variable {store : Store} {catalog : Option Catalog} {node : Node} {issue : Issue}

/-! ### The parts -/

theorem code_of_mem_duplicateIds (h : issue ∈ store.duplicateIds) :
    issue.code = "duplicate_id" := by
  obtain ⟨id, -, h⟩ := List.mem_filterMap.mp h
  obtain ⟨-, h⟩ := Option.ite_none_right_eq_some.mp h
  obtain rfl := Option.some.inj h
  rfl

theorem code_of_mem_argumentIssues (h : issue ∈ store.argumentIssues node) :
    issue.code = "invalid_argument_group" := by
  rw [argumentIssues, List.mem_ite_nil_right] at h
  obtain rfl := List.mem_singleton.mp h.2
  rfl

theorem code_of_mem_operatorIssues (h : issue ∈ operatorIssues node) :
    issue.code = "unknown_operator" := by
  rw [operatorIssues, List.mem_ite_nil_right] at h
  obtain rfl := List.mem_singleton.mp h.2
  rfl

theorem code_of_mem_referenceIssues (h : issue ∈ referenceIssues catalog node) :
    issue.code = "unresolved_attribute" := by
  rw [referenceIssues, List.mem_ite_nil_right] at h
  obtain ⟨-, h⟩ := h
  split at h
  · obtain rfl := List.mem_singleton.mp h
    rfl
  · split at h
    · obtain rfl := List.mem_singleton.mp h
      rfl
    · obtain rfl := List.mem_singleton.mp (List.mem_ite_nil_right.mp h).2
      rfl

/-- The codes of what is wrong with identifiers, parents and contents. -/
def integrityCodes : List String :=
  ["duplicate_id", "orphan_node", "parent_cycle", "leaf_has_children", "invalid_function_child",
    "invalid_argument_group", "unknown_operator", "unresolved_attribute"]

/-- The codes of what is wrong with identifiers and with the links between nodes. -/
def linkCodes : List String :=
  ["duplicate_id", "orphan_node", "parent_cycle", "leaf_has_children", "invalid_function_child",
    "invalid_argument_group"]

theorem code_of_mem_parentIssues (h : issue ∈ store.parentIssues node) :
    issue.code ∈ linkCodes := by
  unfold parentIssues at h
  cases hparent : node.parent with
  | none =>
    rw [hparent] at h
    cases h
  | some id =>
    rw [hparent] at h
    dsimp only at h
    split at h
    · obtain rfl := List.mem_singleton.mp h
      simp [linkCodes, Issue.code]
    · split_ifs at h
      all_goals simp_all [linkCodes, Issue.code]

theorem code_of_mem_integrityIssues (h : issue ∈ store.integrityIssues catalog) :
    issue.code ∈ integrityCodes := by
  rcases List.mem_append.mp h with h | h
  · rw [code_of_mem_duplicateIds h]
    decide
  · obtain ⟨node, -, h⟩ := List.mem_flatMap.mp h
    simp only [List.mem_append] at h
    rcases h with ((h | h) | h) | h
    · have hsubset : linkCodes ⊆ integrityCodes := by decide
      exact hsubset (code_of_mem_parentIssues h)
    · rw [code_of_mem_argumentIssues h]
      decide
    · rw [code_of_mem_operatorIssues h]
      decide
    · rw [code_of_mem_referenceIssues h]
      decide

/-- What is wrong with the parent and the contents of a node. -/
def nodeIssues (store : Store) (catalog : Option Catalog) (node : Node) : List Issue :=
  store.parentIssues node ++ store.argumentIssues node ++ operatorIssues node ++
    referenceIssues catalog node

/-- Where identifiers are unique, all that is wrong is wrong with some node. -/
theorem integrityIssues_eq_flatMap (hunique : (idsOf store.nodes).Nodup) (catalog : Option Catalog) :
    store.integrityIssues catalog = store.nodes.flatMap (store.nodeIssues catalog) := by
  rw [integrityIssues, duplicateIds_eq_nil_iff.mpr hunique, List.nil_append]
  rfl

/-- The codes of what is wrong with a function. -/
def functionCodes : List String :=
  ["unknown_function", "duplicate_argument_index", "invalid_argument_index", "arity_mismatch"]

theorem code_of_mem_functionIssues (h : issue ∈ store.functionIssues node) :
    issue.code ∈ functionCodes := by
  unfold functionIssues slotIssues at h
  split at h
  · obtain rfl := List.mem_singleton.mp h
    simp [functionCodes, Issue.code]
  · rcases List.mem_append.mp h with h | h
    · obtain ⟨slot, -, rfl⟩ := List.mem_map.mp h
      simp [functionCodes, Issue.code]
    · split at h
      · obtain rfl := List.mem_singleton.mp (List.mem_ite_nil_left.mp h).2
        simp [functionCodes, Issue.code]
      · rcases List.mem_append.mp h with h | h
        · obtain rfl := List.mem_singleton.mp (List.mem_ite_nil_left.mp h).2
          simp [functionCodes, Issue.code]
        · obtain ⟨slot, -, rfl⟩ := List.mem_map.mp h
          simp [functionCodes, Issue.code]

/-! ### The report -/

/-- The issues about a sequence are about that of the roots. -/
theorem mem_checkSequence_of_code (h : issue ∈ (store.structureReport catalog).issues)
    (hcode : issue.code ∈ sequenceCodes) : issue ∈ checkSequence store.roots := by
  have hintegrity : ∀ code ∈ integrityCodes, code ∉ sequenceCodes := by decide
  have hfunction : ∀ code ∈ functionCodes, code ∉ sequenceCodes := by decide
  rcases List.mem_append.mp h with h | h
  · rcases List.mem_append.mp h with h | h
    · exact absurd hcode (hintegrity _ (code_of_mem_integrityIssues h))
    · exact h
  · obtain ⟨node, -, h⟩ := List.mem_flatMap.mp h
    exact absurd hcode (hfunction _ (code_of_mem_functionIssues h))

/-- The issues with a code that none of them has. -/
theorem filter_code_eq_nil {issues : List Issue} {code : String}
    (h : ∀ issue ∈ issues, issue.code ≠ code) : issues.filter (·.code = code) = [] :=
  List.filter_eq_nil_iff.mpr fun issue hissue => by simpa using h issue hissue

end Store
end Formulary
