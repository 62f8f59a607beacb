/-
# Only the tree counts

A formula is a tree, and a store tells it by the identifiers of parents and by the order of the nodes in
its list. All of that order that counts is the one among the roots and among the nodes with one parent:
however the list interleaves these, and whatever the identifiers are, the text, the types and what is
wrong are the same, up to the identifiers (`Store.reports_of_renames`). The structure report goes through
the list, so that its issues come in the order of the list; there it is only the issues themselves that
are the same.

Key definitions: `Store.Reorders`, `Node.relabel`, `Store.Renames`.
Key theorems: `Store.Reorders.forest`, `Store.reports_of_renames`.
-/
import Formulary.Proofs.Relabel.Typing
import Formulary.Proofs.Structure.Valid

namespace Formulary
namespace Store

variable {store other : Store}

/-- Whether a store has the nodes of another in an order that keeps those without a parent and those with
the same parent in theirs. -/
structure Reorders (store other : Store) : Prop where
  perm : other.nodes.Perm store.nodes
  siblings : ∀ parent : Option String,
    other.nodes.filter (·.parent = parent) = store.nodes.filter (·.parent = parent)

namespace Reorders

theorem labels (h : store.Reorders other) : other.labels = store.labels :=
  Set.ext fun _ => exists_congr fun _ => and_congr_left fun _ => h.perm.mem_iff

theorem size (h : store.Reorders other) : other.size = store.size :=
  h.perm.length_eq

theorem roots (h : store.Reorders other) : other.roots = store.roots := by
  have hnone : (fun node : Node => node.parent.isNone) = fun node => decide (node.parent = none) :=
    funext fun node => by cases node.parent <;> rfl
  rw [Store.roots, Store.roots, hnone]
  exact h.siblings none

theorem childrenOf (h : store.Reorders other) (id : String) :
    other.childrenOf id = store.childrenOf id :=
  h.siblings (some id)

theorem argumentsOf (h : store.Reorders other) (id : String) :
    other.argumentsOf id = store.argumentsOf id := by
  rw [Store.argumentsOf, Store.argumentsOf, h.childrenOf]

theorem unique (h : store.Reorders other) (hunique : (idsOf store.nodes).Nodup) :
    (idsOf other.nodes).Nodup :=
  (h.perm.map _).nodup_iff.mpr hunique

/-- Among unique identifiers it does not matter which comes first. -/
theorem get? (h : store.Reorders other) (hunique : (idsOf store.nodes).Nodup) (id : String) :
    other.get? id = store.get? id := by
  refine Option.ext fun node => ?_
  constructor
  · intro hnode
    obtain ⟨hmem, rfl⟩ := mem_of_get? hnode
    exact get?_of_unique hunique (h.perm.mem_iff.mp hmem)
  · intro hnode
    obtain ⟨hmem, rfl⟩ := mem_of_get? hnode
    exact get?_of_unique (h.unique hunique) (h.perm.mem_iff.mpr hmem)

theorem tree (h : store.Reorders other) : ∀ (depth : Nat) (node : Node),
    other.tree depth node = store.tree depth node
  | 0, _ => rfl
  | depth + 1, node => by
    have hbelow : other.below node = store.below node := by
      rw [below, below, h.childrenOf, h.argumentsOf]
    rw [Store.tree, Store.tree, hbelow]
    exact congrArg (Tree.mk node) (List.map_congr_left fun child _ => h.tree depth child)

/-- **The forest is the same in any order that keeps siblings in theirs.** -/
theorem forest (h : store.Reorders other) : other.forest = store.forest := by
  rw [Store.forest, Store.forest, h.roots, h.size]
  exact List.map_congr_left fun root _ => h.tree _ root

theorem canonical (h : store.Reorders other) (catalog : Catalog) (placeholder : String) :
    other.canonical catalog placeholder = store.canonical catalog placeholder := by
  rw [Store.canonical, Store.canonical, h.forest]

theorem types (h : store.Reorders other) (hunique : (idsOf store.nodes).Nodup) (catalog : Catalog) :
    (other.inferTypes catalog).types.Perm (store.inferTypes catalog).types := by
  have hstore : (store.nodes.map (·.id)).eraseDups = idsOf store.nodes := eraseDups_of_nodup hunique
  have hother : (other.nodes.map (·.id)).eraseDups = idsOf other.nodes :=
    eraseDups_of_nodup (h.unique hunique)
  rw [inferTypes, inferTypes, h.forest, hstore, hother]
  exact (h.perm.map _).map _

/-! ### The structure report -/

theorem ancestorsFrom (h : store.Reorders other) (hunique : (idsOf store.nodes).Nodup) :
    ∀ (fuel : Nat) (seen : List String) (id : String),
    other.ancestorsFrom fuel seen id = store.ancestorsFrom fuel seen id
  | 0, _, _ => rfl
  | fuel + 1, seen, id => by
    simp only [Store.ancestorsFrom, h.get? hunique, h.ancestorsFrom hunique fuel]

theorem inCycle (h : store.Reorders other) (hunique : (idsOf store.nodes).Nodup) (id : String) :
    other.inCycle id = store.inCycle id := by
  simp only [Store.inCycle, isAncestor, ancestors, h.get? hunique, h.ancestorsFrom hunique, h.size]

theorem integrityIssues (h : store.Reorders other) (hunique : (idsOf store.nodes).Nodup)
    (catalog : Option Catalog) :
    (other.integrityIssues catalog).Perm (store.integrityIssues catalog) := by
  have hparent : other.parentIssues = store.parentIssues := by
    funext node
    simp only [parentIssues, h.get? hunique, h.inCycle hunique]
  have hfunction : other.hasFunctionParent = store.hasFunctionParent := by
    funext node
    rw [hasFunctionParent, hasFunctionParent]
    cases node.parent with
    | none => rfl
    | some id =>
      dsimp only
      rw [h.get? hunique]
  have harguments : other.argumentIssues = store.argumentIssues := by
    funext node
    rw [argumentIssues, argumentIssues, hfunction]
  rw [Store.integrityIssues, Store.integrityIssues, duplicateIds_eq_nil_iff.mpr hunique,
    duplicateIds_eq_nil_iff.mpr (h.unique hunique), hparent, harguments]
  exact h.perm.flatMap_right _

/-- **The structure report has the same issues**, if not in the same order. -/
theorem structureReport (h : store.Reorders other) (hunique : (idsOf store.nodes).Nodup)
    (catalog : Option Catalog) :
    (other.structureReport catalog).issues.Perm (store.structureReport catalog).issues ∧
      (other.structureReport catalog).broken = (store.structureReport catalog).broken := by
  have hfunctions : other.functionIssues = store.functionIssues := by
    funext node
    simp only [functionIssues, slotsOf, h.argumentsOf]
  rw [Store.structureReport, Store.structureReport, h.roots, hfunctions]
  refine ⟨?_, rfl⟩
  exact ((h.integrityIssues hunique catalog).append_right _).append
    ((h.perm.filter _).flatMap_right _)

end Reorders
end Store

/-! ### Other identifiers in another order -/

/-- A node under another identifier, and with that of its parent. -/
def Node.relabel (r : String → String) (node : Node) : Node :=
  { node with id := r node.id, parent := node.parent.map r }

theorem relabels_relabel (r : String → String) : Relabels r (Node.relabel r) where
  id _ := rfl
  parent _ := rfl
  kind _ := rfl
  reference _ := rfl
  operator _ := rfl
  function _ := rfl
  slot _ := rfl

namespace Store

variable {store other : Store} {r : String → String}

/-- Whether a store has the nodes of another under identifiers that are different where those were, and
in an order that keeps siblings in theirs. No identifier becomes the empty one. -/
structure Renames (r : String → String) (store other : Store) : Prop where
  injective : Set.InjOn r store.labels
  named : ∀ id ∈ store.labels, r id ≠ ""
  nodes : ∃ between, store.Reorders between ∧ other = between.map (Node.relabel r)

/-- **The reports depend on the tree only.** If two stores have the same nodes up to their identifiers,
and the same order among roots and among siblings, then the text and the type of the formula are the same,
and the types of the nodes, the issues and the broken connections are the same up to the identifiers. The
issues of inference come in the same order, too. -/
theorem reports_of_renames (h : Renames r store other) (hunique : (idsOf store.nodes).Nodup)
    (hnamed : ∀ node ∈ store.nodes, node.id ≠ "") :
    (∀ catalog placeholder,
        other.canonical catalog placeholder = store.canonical catalog placeholder) ∧
      (∀ catalog, (other.inferTypes catalog).type = (store.inferTypes catalog).type ∧
        (other.inferTypes catalog).types.Perm
          ((store.inferTypes catalog).types.map fun (id, type) => (r id, type)) ∧
        (other.inferTypes catalog).issues.map (fun issue => (issue.code, issue.node?)) =
          (store.inferTypes catalog).issues.map fun issue => (issue.code, issue.node?.map r)) ∧
      ∀ catalog, (other.structureReport catalog).broken =
          (store.structureReport catalog).broken.map (BrokenConnection.relabel r) ∧
        ((other.structureReport catalog).issues.map fun issue => (issue.code, issue.node?)).Perm
          ((store.structureReport catalog).issues.map fun issue =>
            (issue.code, issue.node?.map r)) := by
  obtain ⟨between, hbetween, rfl⟩ := h.nodes
  have hrelabels := relabels_relabel r
  have hinjective : Set.InjOn r between.labels := hbetween.labels ▸ h.injective
  have hempty : ∀ node ∈ between.nodes, r node.id = "" ↔ node.id = "" := by
    intro node hnode
    have hmem := hbetween.perm.mem_iff.mp hnode
    exact iff_of_false (h.named node.id (id_mem_labels hmem)) (hnamed node hmem)
  have hissue : ∀ issues : List Issue,
      (issues.map (Issue.relabel r)).map (fun issue => (issue.code, issue.node?)) =
        issues.map fun issue => (issue.code, issue.node?.map r) := by
    intro issues
    simp only [List.map_map, Function.comp_def, Issue.code_relabel, Issue.node?_relabel]
  refine ⟨fun catalog placeholder => ?_, fun catalog => ?_, fun catalog => ?_⟩
  · rw [canonical_map hrelabels (fun _ => rfl) hinjective, hbetween.canonical]
  · have htypes := hbetween.types hunique catalog
    rw [inferTypes_map hrelabels hinjective]
    refine ⟨?_, htypes.map _, ?_⟩
    · rw [inferTypes, inferTypes, hbetween.forest]
    · rw [hissue, inferTypes, inferTypes, hbetween.forest]
  · obtain ⟨hissues, hbroken⟩ := hbetween.structureReport hunique catalog
    rw [structureReport_map hrelabels hinjective hempty, hissue, hbroken]
    exact ⟨rfl, hissues.map _⟩

/-- A sum of a number and a group, with a node that has no parent in the list. -/
def summing : Store :=
  ⟨[.ofValue "a" none (some (.integer 1)), .ofOperator "b" none (some "+"), .ofGroup "c" none none,
    .ofValue "d" (some "c") (some (.integer 2)), .ofValue "e" (some "") (some (.integer 3))]⟩

/-- The same nodes under other identifiers, with the content of the group first. -/
def interleaved : Store :=
  ⟨[.ofValue "nd" (some "nc") (some (.integer 2)), .ofValue "na" none (some (.integer 1)),
    .ofValue "ne" (some "n") (some (.integer 3)), .ofOperator "nb" none (some "+"),
    .ofGroup "nc" none none]⟩

theorem renames_interleaved : Renames ("n" ++ ·) summing interleaved where
  injective := fun _ _ _ _ => (String.append_right_inj "n").mp
  named := fun id _ h => absurd (String.append_eq_empty_iff.mp h).1 (by decide)
  nodes := by
    refine ⟨⟨[.ofValue "d" (some "c") (some (.integer 2)), .ofValue "a" none (some (.integer 1)),
      .ofValue "e" (some "") (some (.integer 3)), .ofOperator "b" none (some "+"),
      .ofGroup "c" none none]⟩, ⟨by decide, fun parent => ?_⟩, rfl⟩
    by_cases hroot : parent = none
    · subst hroot
      decide
    · -- No two of the other nodes have one parent.
      have hne : none ≠ parent := Ne.symm hroot
      by_cases hc : some "c" = parent
      · subst hc
        decide
      · simp [summing, Node.ofValue, Node.ofOperator, Node.ofGroup, hne, hc, List.filter_cons]

theorem reports_interleaved :
    Renames ("n" ++ ·) summing interleaved ∧ (idsOf summing.nodes).Nodup ∧
      (∀ node ∈ summing.nodes, node.id ≠ "") ∧
      (∀ catalog placeholder,
        interleaved.canonical catalog placeholder = summing.canonical catalog placeholder) ∧
      ((interleaved.structureReport none).issues.map fun issue => (issue.code, issue.node?)).Perm
        ((summing.structureReport none).issues.map fun issue =>
          (issue.code, issue.node?.map ("n" ++ ·))) := by
  have hunique : (idsOf summing.nodes).Nodup := by decide
  have hnamed : ∀ node ∈ summing.nodes, node.id ≠ "" := by decide
  obtain ⟨hcanonical, -, hstructure⟩ := reports_of_renames renames_interleaved hunique hnamed
  exact ⟨renames_interleaved, hunique, hnamed, hcanonical, (hstructure none).2⟩

end Store
end Formulary
