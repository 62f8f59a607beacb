/-
# The limit for canonical texts

Whatever a text holds, its canonical text is read without a diagnostic under a limit that is greater by
one; limits below zero are no less than zero to this end, since they keep out all parentheses as zero does
(`read_canonical_repaired`). The room for one more parenthesis is needed where a function name without
its own stands below as many as the limit allows: it is written with them. Only there is the canonical
text not read under the limit of the text (`exists_read_canonical_iff`).

Key theorems: `Formula.read_canonical_repaired`, `Formula.exists_read_canonical_iff`.
-/
import Formulary.Proofs.RoundTrip.Text
import Formulary.Proofs.Term.Bare

namespace Formulary
namespace Formula

variable {limit : Int} {catalog : Catalog} {placeholder text : String} {formula : Formula}

theorem fits_of_read (h : read limit catalog text = .ok formula) :
    Term.SequenceFits (limit - (0 : Nat)) formula.terms := by
  rw [Nat.cast_zero, Int.sub_zero]
  exact fits_of_readTerms (readTerms_of_read h).2

/-- The canonical text is read under any limit that the formula is not higher than, and under no other. -/
theorem read_canonical_iff_height {other : Int} (hkeyed : catalog.Keyed)
    (hread : read limit catalog text = .ok formula) (j : Nat) :
    (∃ back, read other catalog ((formula.store j).canonical catalog placeholder) = .ok back) ↔
      (Outline.sequenceHeight formula.outlines : Int) ≤ max other 0 := by
  constructor
  · rintro ⟨back, hback⟩
    have hgood := good_of_read hread
    have hprintable := hgood.printable hkeyed
    have hlayout := hback
    rw [canonical_store hprintable j] at hlayout
    obtain ⟨hclean, houtlines⟩ :=
      outlines_of_read_layout hprintable (fun q hq => (hgood.fine q hq).fits) hlayout
    have hheight := (good_of_read hback).height (diagnostics_eq_nil_iff.mp hclean).2
    rw [houtlines, Outline.sequenceHeight_reread, Outline.sequenceHeight_settled] at hheight
    omega
  · intro hheight
    obtain ⟨back, hback, -, -⟩ := read_canonical_of_height placeholder _ hkeyed hread hheight j
    exact ⟨back, hback⟩

/-- **The canonical text of whatever was read is read without a diagnostic**, with room for one more
parenthesis. -/
theorem read_canonical_repaired (placeholder : String) (hkeyed : catalog.Keyed)
    (hread : read limit catalog text = .ok formula) (j : Nat) :
    ∃ back, read (max limit 0 + 1) catalog ((formula.store j).canonical catalog placeholder) =
      .ok back ∧ back.diagnostics = [] := by
  have hheight := Term.sequenceHeight_le_of_fits (fits_of_read hread)
  have hroom : (Outline.sequenceHeight formula.outlines : Int) ≤ max (max limit 0 + 1) 0 := by
    rw [outlines]
    omega
  obtain ⟨back, hback, hclean, -⟩ := read_canonical_of_height placeholder _ hkeyed hread hroom j
  exact ⟨back, hback, hclean⟩

theorem pieces_bare : pieces "(abs".toList = [.lexeme .opening, .lexeme (.function "abs")] := by
  have hspaced : Spaced [.lexeme .opening, .lexeme (.function "abs")] :=
    ⟨trivial, by decide, rfl, by decide, trivial⟩
  exact pieces_layout hspaced

theorem read_bare : read 1 [] "(abs" = .ok ⟨Scan.ofText "(abs",
    [.group ⟨0, none⟩ [.call 1 "abs" none []]],
    [⟨.missingArguments "abs", 1⟩, ⟨.unclosedGroup, 0⟩]⟩ := by
  refine read_of_readTerms ?_
  rw [Scan.ofText, pieces_bare]
  rfl

/-- A group that is not closed, and a function name without parentheses in it. -/
theorem read_canonical_repaired_bare : ∃ formula back, read 1 [] "(abs" = .ok formula ∧
    formula.diagnostics ≠ [] ∧ read 2 [] "(abs())" = .ok back ∧ back.diagnostics = [] := by
  obtain ⟨back, hback, hclean⟩ := read_canonical_repaired "?" ⟨by decide, by decide⟩ read_bare 0
  refine ⟨_, back, read_bare, fun hnil => ?_, hback, hclean⟩
  cases (diagnostics_eq_nil_iff.mp hnil).2

theorem pieces_alone : pieces "abs".toList = [.lexeme (.function "abs")] := by
  have hspaced : Spaced [.lexeme (.function "abs")] := ⟨rfl, by decide, trivial⟩
  exact pieces_layout hspaced

theorem pieces_empty_call : pieces "abs()".toList =
    [.lexeme (.function "abs"), .lexeme .opening, .lexeme .closing] := by
  have hspaced : Spaced [.lexeme (.function "abs"), .lexeme .opening, .lexeme .closing] :=
    ⟨rfl, by decide, trivial, by decide, trivial, by decide, trivial⟩
  exact pieces_layout hspaced

/-- A limit below zero lets a name without parentheses pass, and one more than it is still not enough for
its parentheses. -/
theorem not_read_canonical_below_zero : Catalog.Keyed [] ∧
    ∃ formula, read (-1) [] "abs" = .ok formula ∧
      ¬∃ back, read (-1 + 1) [] ((formula.store 0).canonical [] "?") = .ok back ∧
        back.diagnostics = [] := by
  refine ⟨⟨by decide, by decide⟩,
    ⟨Scan.ofText "abs", [.call 0 "abs" none []], [⟨.missingArguments "abs", 0⟩]⟩, ?_, ?_⟩
  · refine read_of_readTerms ?_
    rw [Scan.ofText, pieces_alone]
    rfl
  · rintro ⟨back, hback, -⟩
    have herror : read 0 [] "abs()" = .error ⟨0, 1⟩ := by
      rw [read_eq, Scan.ofText, pieces_empty_call]
      rfl
    exact absurd (herror.symm.trans hback) (fun h => by cases h)

/-- **The canonical text is read under the limit of the text if and only if no function name without
parentheses has as many around it as the limit allows.** -/
theorem exists_read_canonical_iff (placeholder : String) (hkeyed : catalog.Keyed)
    (hread : read limit catalog text = .ok formula) (j : Nat) :
    (∃ back, read limit catalog ((formula.store j).canonical catalog placeholder) = .ok back) ↔
      ∀ depth ∈ Term.sequenceBareDepths 0 formula.terms, (depth : Int) < limit := by
  rw [read_canonical_iff_height hkeyed hread,
    ← Term.sequenceHeight_le_iff_of_fits (fits_of_read hread), Nat.cast_zero, Int.zero_add, outlines]

theorem pieces_bare_sum : pieces "abs + ()".toList = [.lexeme (.function "abs"), .blank ' ',
    .lexeme (.operator "+"), .blank ' ', .lexeme .opening, .lexeme .closing] := by
  have hspaced : Spaced [.lexeme (.function "abs"), .blank ' ', .lexeme (.operator "+"), .blank ' ',
      .lexeme .opening, .lexeme .closing] :=
    ⟨rfl, by decide, rfl, ⟨by decide, by decide⟩, by decide, rfl, trivial, by decide, trivial,
      by decide, trivial⟩
  exact pieces_layout hspaced

/-- A name without parentheses beside a group is written with its own under the same limit. -/
theorem exists_read_canonical_bare_sum : ∃ formula back, read 1 [] "abs + ()" = .ok formula ∧
    Term.sequenceBareDepths 0 formula.terms = [0] ∧ read 1 [] "abs() + ()" = .ok back := by
  have hread : read 1 [] "abs + ()" = .ok ⟨Scan.ofText "abs + ()",
      [.call 0 "abs" none [], .operator 4 "+", .group ⟨6, some 7⟩ []],
      [⟨.missingArguments "abs", 0⟩]⟩ := by
    refine read_of_readTerms ?_
    rw [Scan.ofText, pieces_bare_sum]
    rfl
  obtain ⟨back, hback⟩ := (exists_read_canonical_iff "?" ⟨by decide, by decide⟩ hread 0).mpr
    (by decide)
  exact ⟨_, back, hread, rfl, hback⟩

theorem pieces_nested_call : pieces "(abs())".toList = [.lexeme .opening, .lexeme (.function "abs"),
    .lexeme .opening, .lexeme .closing, .lexeme .closing] := by
  have hspaced : Spaced [.lexeme .opening, .lexeme (.function "abs"), .lexeme .opening,
      .lexeme .closing, .lexeme .closing] :=
    ⟨trivial, by decide, rfl, by decide, trivial, by decide, trivial, by decide, trivial, by decide,
      trivial⟩
  exact pieces_layout hspaced

/-- The name without parentheses in `(abs` gets some of its own, and they are one too many. -/
theorem not_read_canonical_bare : Catalog.Keyed [] ∧
    ∃ formula, read 1 [] "(abs" = .ok formula ∧
      ¬∃ back, read 1 [] ((formula.store 0).canonical [] "?") = .ok back := by
  refine ⟨⟨by decide, by decide⟩, _, read_bare, ?_⟩
  rintro ⟨back, hback⟩
  have herror : read 1 [] "(abs())" = .error ⟨1, 2⟩ := by
    rw [read_eq, Scan.ofText, pieces_nested_call]
    rfl
  exact absurd (herror.symm.trans hback) (fun h => by cases h)

end Formula
end Formulary
