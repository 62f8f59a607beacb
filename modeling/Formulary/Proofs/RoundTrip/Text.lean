/-
# Texts that are read, written and read again

A text that is read without a diagnostic has a canonical text that is read without one, into a store
that is alike and has the same reports (`read_canonical`). For other texts the canonical text is not
always that of what is read from it. What goes wrong is one thing only: an operator `AND`, `OR` or `NOT`
that stands in front of a group with no operand before it, because what kept them apart in the text was
dropped, is read back as a call (`canonical_read_canonical_iff`).

Key theorems: `Formula.read_canonical`, `Formula.canonical_read_canonical_iff`.
-/
import Formulary.Check.Basic
import Formulary.Proofs.Check.Settled
import Formulary.Proofs.RoundTrip.Layout

namespace Formulary

/-! ### Terms with settled numbers -/

namespace Term

theorem eq_nil_of_outlines {ts : List Term} (h : outlines ts = []) : ts = [] := by
  cases ts with
  | nil => rfl
  | cons t ts => cases h

theorem exists_cons_of_outlines {ts : List Term} {o : Outline} {os : List Outline}
    (h : outlines ts = o :: os) : ∃ t rest, ts = t :: rest ∧ t.outline = o ∧ outlines rest = os := by
  cases ts with
  | nil => cases h
  | cons t rest =>
    obtain ⟨ht, hrest⟩ := List.cons.inj h
    exact ⟨t, rest, rfl, ht, hrest⟩

theorem exists_cons_of_argumentOutlines {as : List (List Term)} {os : List Outline}
    {others : List (List Outline)} (h : argumentOutlines as = os :: others) :
    ∃ a rest, as = a :: rest ∧ outlines a = os ∧ argumentOutlines rest = others := by
  cases as with
  | nil => cases h
  | cons a rest =>
    obtain ⟨ha, hrest⟩ := List.cons.inj h
    exact ⟨a, rest, rfl, ha, hrest⟩

mutual

theorem nodes_of_outline (parent : Option String) (k : Nat) : ∀ {t u : Term},
    u.outline = t.outline.settled → nodes parent k u = (nodes parent k t).map Node.settled
  | reference _ _, u, h => by
    cases u with
    | reference _ _ =>
      obtain rfl := Outline.reference.inj h
      rfl
    | _ => cases h
  | operator _ _, u, h => by
    cases u with
    | operator _ _ =>
      obtain rfl := Outline.operator.inj h
      rfl
    | _ => cases h
  | value _ _, u, h => by
    cases u with
    | value _ _ =>
      obtain rfl := Outline.value.inj h
      rfl
    | _ => cases h
  | call _ _ _ arguments, u, h => by
    cases u with
    | call _ _ _ _ =>
      obtain ⟨rfl, harguments⟩ := Outline.call.inj h
      exact congrArg (List.cons _) (argumentNodes_of_outlines _ _ _ harguments)
    | _ => cases h
  | group _ body, u, h => by
    cases u with
    | group _ _ => exact congrArg (List.cons _) (sequenceNodes_of_outlines _ _ (Outline.group.inj h))
    | _ => cases h

/-- Terms whose outlines differ in settled numbers only have nodes that do. -/
theorem sequenceNodes_of_outlines (parent : Option String) (k : Nat) : ∀ {ts us : List Term},
    outlines us = Outline.sequenceSettled (outlines ts) →
    sequenceNodes parent k us = (sequenceNodes parent k ts).map Node.settled
  | [], us, h => by
    obtain rfl := eq_nil_of_outlines h
    rfl
  | t :: rest, us, h => by
    obtain ⟨u, others, rfl, hu, hothers⟩ := exists_cons_of_outlines h
    have ht := nodes_of_outline parent k hu
    have ih := sequenceNodes_of_outlines parent (k + (nodes parent k t).length) hothers
    rw [sequenceNodes, sequenceNodes, List.map_append, ht, List.length_map, ih]

theorem argumentNodes_of_outlines (owner : String) (slot k : Nat) : ∀ {as bs : List (List Term)},
    argumentOutlines bs = Outline.argumentSettled (argumentOutlines as) →
    argumentNodes owner slot k bs = (argumentNodes owner slot k as).map Node.settled
  | [], bs, h => by
    cases bs with
    | nil => rfl
    | cons b bs => cases h
  | a :: rest, bs, h => by
    obtain ⟨b, others, rfl, hb, hothers⟩ := exists_cons_of_argumentOutlines h
    have ha := sequenceNodes_of_outlines (some (nodeId (k + 1))) (k + 1) hb
    have ih := argumentNodes_of_outlines owner (slot + 1)
      (k + 1 + (sequenceNodes (some (nodeId (k + 1))) (k + 1) a).length) hothers
    rw [argumentNodes, argumentNodes, List.cons_append, List.cons_append, List.map_cons,
      List.map_append, ha, List.length_map, ih]
    rfl

end

end Term

variable {limit : Int} {catalog : Catalog} {placeholder text : String}

namespace Formula

variable {formula back : Formula}

theorem store_of_outlines (h : back.outlines = Outline.sequenceSettled formula.outlines) (k : Nat) :
    back.store k = (formula.store k).settled :=
  congrArg Store.mk (Term.sequenceNodes_of_outlines none k h)

theorem alike_of_outlines (hprintable : Outline.Printable catalog formula.outlines)
    (h : back.outlines = Outline.sequenceSettled formula.outlines) (j k : Nat) :
    (formula.store j).Alike (back.store k) := by
  have hformula := Term.outlines_sequenceTrees none j formula.terms
  have hback := Term.outlines_sequenceTrees none k back.terms
  have halike := Store.alike_of_outlines catalog
    (Term.regular_sequenceTrees none j formula.terms)
    (Term.regular_sequenceTrees none k back.terms)
    (Term.linked_sequenceTrees none j formula.terms) (Term.linked_sequenceTrees none k back.terms)
    (Store.nodup_preorder_sequenceTrees j formula.terms)
    (Store.nodup_preorder_sequenceTrees k back.terms) (by rw [hformula]; exact hprintable)
    (by rw [hformula, hback]; exact h)
  rw [Term.preorder_sequenceTrees, Term.preorder_sequenceTrees, Term.map_bare_sequenceNodes,
    Term.map_bare_sequenceNodes] at halike
  exact halike

/-- The canonical text of a formula is read into what comes back of its outline, if the limit is high
enough. -/
theorem read_canonical_of_height (placeholder : String) (enough : Int) (hkeyed : catalog.Keyed)
    (hread : read limit catalog text = .ok formula)
    (hheight : (Outline.sequenceHeight formula.outlines : Int) ≤ max enough 0) (j : Nat) :
    ∃ back, read enough catalog ((formula.store j).canonical catalog placeholder) = .ok back ∧
      back.diagnostics = [] ∧
      back.outlines = Outline.sequenceReread false (Outline.sequenceSettled formula.outlines) := by
  have hgood := good_of_read hread
  have hprintable := hgood.printable hkeyed
  rw [canonical_store hprintable j]
  exact read_layout hprintable (fun q hq => (hgood.fine q hq).fits) hheight

/-- **A text that is read without a diagnostic makes a round trip.** Its canonical text is read under
the same limit, without a diagnostic, into a store that is alike, whatever identifiers are issued
already, and has the same canonical text; the check of the canonical text gives the same reports on the
shape and the types. -/
theorem read_canonical (placeholder : String) (hkeyed : catalog.Keyed)
    (hread : read limit catalog text = .ok formula)
    (hclean : formula.diagnostics = []) (j : Nat) :
    (∃ back, read limit catalog ((formula.store j).canonical catalog placeholder) = .ok back ∧
      back.diagnostics = [] ∧ ∀ k, (formula.store j).Alike (back.store k) ∧
        (back.store k).canonical catalog placeholder =
          (formula.store j).canonical catalog placeholder) ∧
    ∃ check again, Check.ofText limit placeholder catalog text = .ok check ∧
      Check.ofText limit placeholder catalog ((formula.store j).canonical catalog placeholder) =
        .ok again ∧ again.shape = check.shape ∧ again.types = check.types := by
  have hnotes := (diagnostics_eq_nil_iff.mp hclean).2
  have hgood := good_of_read hread
  have hprintable := hgood.printable hkeyed
  have hfaithful : Outline.Faithful formula.outlines := fun q hq => (hgood.fine q hq).plainly hnotes
  have hheight := hgood.height hnotes
  simp only [Nat.cast_zero, Int.zero_add] at hheight
  obtain ⟨back, hback, hdiagnostics, houtlines⟩ :=
    read_canonical_of_height placeholder _ hkeyed hread hheight j
  rw [Outline.sequenceReread_of_faithful hfaithful.settled] at houtlines
  have hbackPrintable : Outline.Printable catalog back.outlines := by
    rw [houtlines]
    exact Outline.printable_settled hprintable
  refine ⟨⟨back, hback, hdiagnostics, fun k =>
    ⟨alike_of_outlines hprintable houtlines j k, ?_⟩⟩, ?_⟩
  · rw [canonical_store hbackPrintable, canonical_store hprintable, houtlines,
      Outline.layoutText_settled hprintable]
  · have hstore := store_of_outlines houtlines 0
    refine ⟨_, _, Check.ofText_eq hread, Check.ofText_eq hback, ?_, ?_⟩
    · show (back.store 0).structureReport _ = (formula.store 0).structureReport _
      rw [hstore, Store.structureReport_settled]
    · show (back.store 0).inferTypes _ = (formula.store 0).inferTypes _
      rw [hstore, Store.inferTypes_settled]

theorem pieces_negation : pieces "( NOT(\x7bA\x7d) )".toList =
    [.lexeme .opening, .blank ' ', .lexeme (.function "NOT"), .lexeme .opening,
      .lexeme (.reference "A"), .lexeme .closing, .blank ' ', .lexeme .closing] := by
  have hname : '}' ∉ "A".toList := by decide
  have hspaced :
      Spaced [.lexeme .opening, .blank ' ', .lexeme (.function "NOT"), .lexeme .opening,
      .lexeme (.reference "A"), .lexeme .closing, .blank ' ', .lexeme .closing] :=
    ⟨trivial, by decide, rfl, rfl, by decide, trivial, by decide, hname, by decide, trivial, by decide,
      rfl, trivial, by decide, trivial⟩
  exact pieces_layout hspaced

theorem read_negation : read 2 [⟨"a", "A", none⟩] "( NOT(\x7bA\x7d) )" = .ok ⟨Scan.ofText "( NOT(\x7bA\x7d) )",
    [.group ⟨0, some 11⟩ [.call 2 "NOT" (some ⟨5, some 9⟩) [[.reference 6 "a"]]]], []⟩ := by
  refine read_of_readTerms ?_
  rw [Scan.ofText, pieces_negation]
  rfl

/-- A call in a group, with blanks that the canonical text does not have. -/
theorem read_canonical_negation : ∃ formula back,
    read 2 [⟨"a", "A", none⟩] "( NOT(\x7bA\x7d) )" = .ok formula ∧
    read 2 [⟨"a", "A", none⟩] "(NOT(\x7bA\x7d))" = .ok back ∧ back.diagnostics = [] ∧
      (formula.store 0).Alike (back.store 0) := by
  have hclean : (Scan.ofText "( NOT(\x7bA\x7d) )").diagnostics = [] := by
    rw [Scan.ofText, pieces_negation]
    rfl
  obtain ⟨⟨back, hback, hdiagnostics, halike⟩, -⟩ := read_canonical "?"
    ⟨by decide, by decide⟩ read_negation (diagnostics_eq_nil_iff.mpr ⟨hclean, rfl⟩) 0
  exact ⟨_, back, read_negation, hback, hdiagnostics, (halike 0).1⟩

/-- **The canonical text is that of what is read from it if and only if no operator `AND`, `OR` or
`NOT` stands in front of a group with no operand before it.** -/
theorem canonical_read_canonical_iff {other : Int} (hkeyed : catalog.Keyed)
    (hread : read limit catalog text = .ok formula) (j : Nat)
    (hback : read other catalog ((formula.store j).canonical catalog placeholder) = .ok back)
    (k : Nat) : (back.store k).canonical catalog placeholder =
        (formula.store j).canonical catalog placeholder ↔
      ∀ q ∈ (formula.store j).sequences, Role.misreads false (q.map Node.role) = 0 := by
  have hprintable := (good_of_read hread).printable hkeyed
  have hbackPrintable := (good_of_read hback).printable hkeyed
  -- Under a limit that is high enough the same is read, and its outline is known.
  obtain ⟨enough, hother, hheight⟩ : ∃ enough : Int, other ≤ enough ∧
      (Outline.sequenceHeight formula.outlines : Int) ≤ max enough 0 :=
    ⟨max other (Outline.sequenceHeight formula.outlines), by omega, by omega⟩
  obtain ⟨same, hsame, -, houtlines⟩ :=
    read_canonical_of_height placeholder _ hkeyed hread hheight j
  rw [read_mono hback hother] at hsame
  obtain rfl := Except.ok.inj hsame
  have hsettled := Outline.layoutText_settled hprintable
  have hlayout := Outline.layout_sequenceReread_iff catalog
    (Outline.sequenceSettled formula.outlines)
  rw [canonical_store hbackPrintable, canonical_store hprintable, String.ofList_inj, houtlines,
    ← hsettled, Tree.layoutText, Tree.layoutText, hlayout, Outline.sequences_settled,
    List.forall_mem_map, forall_sequences_iff formula j (P := fun rs => Role.misreads false rs = 0)]
  simp only [Outline.map_role_settled]

theorem pieces_stray : pieces "AND ) ()".toList =
    [.lexeme (.function "AND"), .blank ' ', .lexeme .closing, .blank ' ', .lexeme .opening,
      .lexeme .closing] := by
  have hspaced :
      Spaced [.lexeme (.function "AND"), .blank ' ', .lexeme .closing, .blank ' ', .lexeme .opening,
      .lexeme .closing] :=
    ⟨rfl, by decide, rfl, trivial, by decide, rfl, trivial, by decide, trivial, by decide, trivial⟩
  exact pieces_layout hspaced

theorem pieces_word_group : pieces "AND ()".toList =
    [.lexeme (.function "AND"), .blank ' ', .lexeme .opening, .lexeme .closing] := by
  have hspaced :
      Spaced [.lexeme (.function "AND"), .blank ' ', .lexeme .opening, .lexeme .closing] :=
    ⟨rfl, by decide, rfl, trivial, by decide, trivial, by decide, trivial⟩
  exact pieces_layout hspaced

theorem read_stray : read 1 [] "AND ) ()" = .ok ⟨Scan.ofText "AND ) ()",
    [.operator 0 "AND", .group ⟨6, some 7⟩ []], [⟨.unmatchedClosing, 4⟩]⟩ := by
  refine read_of_readTerms ?_
  rw [Scan.ofText, pieces_stray]
  rfl

theorem read_word_group : read 1 [] "AND ()" = .ok ⟨Scan.ofText "AND ()",
    [.call 0 "AND" (some ⟨4, some 5⟩) []], []⟩ := by
  refine read_of_readTerms ?_
  rw [Scan.ofText, pieces_word_group]
  rfl

/-- The stray parenthesis in `AND ) ()` is all that keeps the word from being a call, and the canonical
text `AND ()` does not have it. -/
theorem canonical_read_canonical_stray : ∃ formula back, read 1 [] "AND ) ()" = .ok formula ∧
    read 1 [] ((formula.store 0).canonical [] "?") = .ok back ∧
    (back.store 0).canonical [] "?" ≠ (formula.store 0).canonical [] "?" :=
  ⟨_, _, read_stray, read_word_group, by decide⟩

/-- What is read from `AND ()` is written as `AND()`, and that comes back as it is. -/
theorem canonical_read_canonical_word_group : ∃ formula back, read 1 [] "AND ()" = .ok formula ∧
    read 1 [] "AND()" = .ok back ∧ (back.store 0).canonical [] "?" = "AND()" := by
  obtain ⟨back, hback, -, -⟩ := read_canonical_of_height "?" 1 ⟨by decide, by decide⟩
    read_word_group (by decide) 0
  have hiff := canonical_read_canonical_iff ⟨by decide, by decide⟩ read_word_group 0 hback 0
  exact ⟨_, back, read_word_group, hback, hiff.mpr (by decide)⟩

end Formula
end Formulary
