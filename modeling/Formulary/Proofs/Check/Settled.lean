/-
# The reports do not read the numbers

Neither the shape of a store nor the types of its nodes depend on what its values are. Settling the
numbers of a store leaves the identifiers as they are, and with them the reports
(`structureReport_settled`, `inferTypes_settled`).

Key definitions: `Node.settled`, `Store.settled`.
Key theorems: `Store.structureReport_settled`, `Store.inferTypes_settled`.
-/
import Formulary.Proofs.Number.Text
import Formulary.Proofs.Relabel.Typing

namespace Formulary

/-- A node with its number as it comes back. -/
def Node.settled (node : Node) : Node :=
  { node with value := node.value.map Number.settled }

/-- A store with its numbers as they come back. -/
def Store.settled (store : Store) : Store :=
  ⟨store.nodes.map Node.settled⟩

theorem relabels_settled : Relabels id Node.settled where
  id _ := rfl
  parent node := (Option.map_id_apply (x := node.parent)).symm
  kind _ := rfl
  reference _ := rfl
  operator _ := rfl
  function _ := rfl
  slot _ := rfl

namespace Store

variable (store : Store)

/-- **The report on the shape does not depend on the numbers.** -/
theorem structureReport_settled (catalog : Option Catalog) :
    store.settled.structureReport catalog = store.structureReport catalog := by
  have hmap := structureReport_map relabels_settled (Set.injOn_id store.labels)
    (fun _ _ => Iff.rfl) catalog
  rw [Issue.relabel_id, List.map_id] at hmap
  exact hmap.trans (congrArg (StructureReport.mk _) (List.map_id _))

/-- **The types do not depend on the numbers.** -/
theorem inferTypes_settled (catalog : Catalog) :
    store.settled.inferTypes catalog = store.inferTypes catalog := by
  have hmap := inferTypes_map relabels_settled (Set.injOn_id store.labels) catalog
  rw [Issue.relabel_id, List.map_id] at hmap
  exact hmap.trans (congrArg (TypeReport.mk _ _) (List.map_id _))

end Store
end Formulary
