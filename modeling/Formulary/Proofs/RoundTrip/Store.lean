/-
# Stores that are written and read back

The canonical text of a store that can be expressed is read without a diagnostic, into a store that has
the nodes of the first in reading order, whatever their order in the list is and whatever other fields
they have (`Store.Expressible.reads_back`). The identifier of an attribute has to be there and not empty
even if the catalog has an entry for the empty one, since a reference without an identifier is written as
the placeholder (`Store.not_reads_back_empty_reference`).

Key theorem: `Store.Expressible.reads_back`.
-/
import Formulary.Proofs.RoundTrip.Layout
import Formulary.Proofs.Store.Expressible

namespace Formulary
namespace Store

open Formulary.Tree

variable {catalog : Catalog} {limit : Int} {store : Store}

namespace Expressible

theorem nodup_preorder (h : store.Expressible catalog limit) : (idsOf store.preorder).Nodup :=
  (h.isForest.preorder_perm.map _).nodup_iff.mpr h.unique

/-- **A store that can be expressed makes a round trip**, if no reference has the empty identifier. Its
canonical text is read under the limit without a diagnostic. The store that is read is alike to the list
of the forest, which has every node of the first store once, each before those below it, with the field
of its kind. -/
theorem reads_back (h : store.Expressible catalog limit)
    (hnamed : ∀ node ∈ store.nodes, node.kind = .reference → node.reference ≠ some "")
    (placeholder : String) :
    ∃ formula, Formula.read limit catalog (store.canonical catalog placeholder) = .ok formula ∧
      formula.diagnostics = [] ∧ store.preorder.Perm store.nodes ∧
      ∀ k, (Store.mk (store.preorder.map Node.bare)).Alike (formula.store k) := by
  have hregular := h.regular_forest
  have hprintable := h.printable hnamed
  have htext : store.canonical catalog placeholder =
      String.ofList (layoutText catalog (outlines store.forest)) := by
    rw [canonical, sequenceText_of_regular hregular hprintable.marks]
  have hnesting := h.nesting
  have hheight : (Outline.sequenceHeight (outlines store.forest) : Int) ≤ max limit 0 := by
    rw [sequenceHeight_outlines hregular]
    omega
  obtain ⟨formula, hread, hdiagnostics, houtlines⟩ :=
    Formula.read_layout hprintable (fun q hq => h.fits hq) hheight
  rw [Outline.sequenceReread_of_faithful h.faithful.settled] at houtlines
  refine ⟨formula, by rw [htext, hread], hdiagnostics, h.isForest.preorder_perm, fun k => ?_⟩
  have hterms := Term.outlines_sequenceTrees none k formula.terms
  have halike := alike_of_outlines catalog hregular
    (Term.regular_sequenceTrees none k formula.terms) linked_forest
    (Term.linked_sequenceTrees none k formula.terms) h.nodup_preorder
    (nodup_preorder_sequenceTrees k formula.terms) hprintable (by rw [hterms]; exact houtlines)
  rw [Term.preorder_sequenceTrees, Term.map_bare_sequenceNodes] at halike
  exact halike

end Expressible

/-- A call whose argument stands before it in the list, and what the argument holds before that. -/
def shuffled : Store :=
  ⟨[.ofReference "x" (some "g") (some "a"), .ofGroup "g" (some "f") (some 0),
    .ofFunction "f" none (some "NOT")]⟩

theorem expressible_shuffled : shuffled.Expressible [⟨"a", "A", none⟩] 1 where
  unique := by decide
  parents := by decide
  acyclic := acyclic_of_measure (fun id => if id = "x" then 2 else if id = "g" then 1 else 0) (by decide)
  leaf := by decide
  reference := by
    have hall : ∀ node ∈ shuffled.nodes, node.kind = .reference → node.reference = some "a" := by
      decide
    intro node hnode hkind
    exact ⟨"a", hall node hnode hkind, ⟨"a", "A", none⟩, by decide, by decide, by decide⟩
  operator := by decide
  value := by
    have hall : ∀ node ∈ shuffled.nodes, node.kind ≠ .value := by decide
    intro node hnode hkind
    exact (hall node hnode hkind).elim
  function := by decide
  arguments := by decide
  slots := by decide
  argument := by decide
  hollow := by
    have hall : ∀ node ∈ shuffled.nodes, node.kind = .function →
        ∀ child ∈ shuffled.childrenOf node.id, shuffled.childrenOf child.id ≠ [] := by
      decide
    intro node hnode hkind group hgroup
    exact hall node hnode hkind group (by rw [hgroup]; exact List.mem_singleton_self _)
  calls := by decide
  words := by decide
  nesting := by decide

/-- The shuffled call is written as `NOT(\x7bA\x7d)` and read back with the function first. -/
theorem reads_back_shuffled : shuffled.canonical [⟨"a", "A", none⟩] "?" = "NOT(\x7bA\x7d)" ∧
    ∃ formula, Formula.read 1 [⟨"a", "A", none⟩] "NOT(\x7bA\x7d)" = .ok formula ∧
      formula.diagnostics = [] ∧
      (Store.mk [.ofFunction "f" none (some "NOT"), .ofGroup "g" (some "f") (some 0),
        .ofReference "x" (some "g") (some "a")]).Alike (formula.store 0) := by
  obtain ⟨formula, hread, hdiagnostics, -, halike⟩ := expressible_shuffled.reads_back (by decide) "?"
  exact ⟨by decide, formula, hread, hdiagnostics, halike 0⟩

theorem pieces_placeholder : pieces "\x7battribute\x7d".toList =
    [.lexeme (.reference "attribute")] := by
  have hname : '}' ∉ "attribute".toList := by decide
  have hspaced : Spaced [.lexeme (.reference "attribute")] := ⟨hname, by decide, trivial⟩
  exact pieces_layout hspaced

/-- A store with one reference, to the attribute with the empty identifier. -/
def unnamed : Store :=
  ⟨[.ofReference "n" none (some "")]⟩

theorem expressible_unnamed : unnamed.Expressible [⟨"", "A", none⟩] 1 where
  unique := by decide
  parents := by decide
  acyclic := acyclic_of_measure (fun _ => 0) (by decide)
  leaf := by decide
  reference := by
    have hall : ∀ node ∈ unnamed.nodes, node.reference = some "" := by decide
    intro node hnode _
    exact ⟨"", hall node hnode, ⟨"", "A", none⟩, by decide, by decide, by decide⟩
  operator := by
    have hall : ∀ node ∈ unnamed.nodes, node.kind ≠ .operator := by decide
    intro node hnode hkind
    exact (hall node hnode hkind).elim
  value := by
    have hall : ∀ node ∈ unnamed.nodes, node.kind ≠ .value := by decide
    intro node hnode hkind
    exact (hall node hnode hkind).elim
  function := by
    have hall : ∀ node ∈ unnamed.nodes, node.kind ≠ .function := by decide
    intro node hnode hkind
    exact (hall node hnode hkind).elim
  arguments := by decide
  slots := by decide
  argument := by decide
  hollow := by
    have hall : ∀ node ∈ unnamed.nodes, node.kind ≠ .function := by decide
    intro node hnode hkind
    exact (hall node hnode hkind).elim
  calls := by decide
  words := by decide
  nesting := by decide

/-- A reference with the empty identifier is written as the placeholder, even if the catalog has an entry
for it, so that it is lost. -/
theorem not_reads_back_empty_reference : unnamed.Expressible [⟨"", "A", none⟩] 1 ∧
    ∃ formula, Formula.read 1 [⟨"", "A", none⟩]
        (unnamed.canonical [⟨"", "A", none⟩] "\x7battribute\x7d") = .ok formula ∧
      formula.diagnostics ≠ [] ∧ formula.store 0 = ⟨[]⟩ := by
  have hterms : readTerms 1 [⟨"", "A", none⟩] (Scan.ofText "\x7battribute\x7d").tokens =
      .ok ([], [⟨.unknownName "attribute", 0⟩]) := by
    rw [Scan.ofText, pieces_placeholder]
    rfl
  refine ⟨expressible_unnamed, _, Formula.read_of_readTerms hterms, fun hnil => ?_, rfl⟩
  cases (Formula.diagnostics_eq_nil_iff.mp hnil).2

end Store
end Formulary
