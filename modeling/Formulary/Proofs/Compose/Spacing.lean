/-
# Blanks between pieces

Blanks may stand anywhere but inside a token or a text that is dropped. Putting more of them there gives
the same nodes and the same diagnostics, and reading stops at the same parenthesis; only the positions
behind the place are greater by what was put in (`Formula.read_putIn`). That is so for texts with
mistakes, too: a brace that is never closed is not closed by blanks, and what is dropped is dropped in the
same runs.

The scan of the longer text is the scan of the text, moved (`Scan.ofText_putIn`), and the reader does not
look at positions (`Progress.read_moved`). The diagnostics are sorted by position, which the move keeps,
since it is strictly monotone.

Key definitions: `Formula.moved`.
Key theorems: `Formula.read_of_scan_moved`, `Formula.read_putIn`.
-/
import Formulary.Proofs.Relabel.Basic
import Formulary.Proofs.RoundTrip.Layout
import Formulary.Proofs.Term.Limit
import Formulary.Proofs.Term.Moved
import Formulary.Proofs.Token.Boundary

namespace Formulary

variable {f : Nat → Nat}

/-! ### The end of the text -/

/-- What is left open is closed to the same terms, moved. -/
theorem Progress.closeAll_moved (frames : List Frame) (body : List Term) (notes : List Diagnostic) :
    closeAll (frames.map (Frame.moved f)) (body.map (Term.moved f)) (notes.map (Diagnostic.moved f)) =
      ((closeAll frames body notes).1.map (Term.moved f),
        (closeAll frames body notes).2.map (Diagnostic.moved f)) := by
  induction frames generalizing body notes with
  | nil => rw [List.map_nil, closeAll, closeAll, List.map_reverse, List.map_reverse]
  | cons frame frames ih =>
    have hclose := frame.close_moved (f := f) none body
    have hfault : (frame.moved f).fault = frame.fault := by
      obtain ⟨_ | _, opening, outer⟩ := frame <;> rfl
    rw [List.map_cons, closeAll, closeAll, ← ih, List.map_cons, List.map_cons, ← hclose, hfault]
    rfl

namespace Formula

variable {limit : Int} {catalog : Catalog} {text other : String}

/-- A formula whose positions are moved. -/
def moved (f : Nat → Nat) (formula : Formula) : Formula :=
  ⟨formula.scan.moved f, formula.terms.map (Term.moved f), formula.notes.map (Diagnostic.moved f)⟩

theorem store_moved (formula : Formula) (k : Nat) : (formula.moved f).store k = formula.store k := by
  rw [store, store, Store.ofTerms, moved, ← Term.sequenceMoved_eq_map, Term.sequenceNodes_moved]
  rfl

/-- Diagnostics are in the same order if positions are. -/
theorem diagnostics_moved (hf : StrictMono f) (formula : Formula) :
    (formula.moved f).diagnostics = formula.diagnostics.map (Diagnostic.moved f) := by
  have hsorted := @sortBy_map _ _ (fun d e => decide (d.position ≤ e.position))
    (fun d e => decide (d.position ≤ e.position)) (Diagnostic.moved f)
    (fun d e => decide_eq_decide.mpr hf.le_iff_le) (formula.scan.diagnostics ++ formula.notes)
  rw [diagnostics, diagnostics, ← hsorted, List.map_append]
  rfl

/-! ### Reading -/

/-- **A text whose scan is that of another one, moved, is read into the same formula, moved**; and if the
other one is not read, reading stops at the same token. -/
theorem read_of_scan_moved (hscan : Scan.ofText other = (Scan.ofText text).moved f) :
    (∀ formula, read limit catalog text = .ok formula →
      read limit catalog other = .ok (formula.moved f)) ∧
    ∀ e, read limit catalog text = .error e → read limit catalog other = .error (e.moved f) := by
  have hread : Progress.read limit catalog (Scan.ofText other).tokens .start =
      Progress.resultMoved f (Progress.read limit catalog (Scan.ofText text).tokens .start) := by
    rw [hscan]
    exact Progress.read_moved _ .start
  refine ⟨fun formula h => ?_, fun e h => ?_⟩
  · obtain ⟨hformula, hterms⟩ := readTerms_of_read h
    obtain ⟨s, hs, hclose⟩ := exists_read_of_readTerms hterms
    rw [hs] at hread
    rw [read_of_progress hread, Progress.moved, Progress.closeAll_moved, hclose, hscan, ← hformula]
    rfl
  · rw [read_eq_error_iff] at h ⊢
    rw [hread, h]
    rfl

/-- **Blanks between the pieces of a text are insignificant**, whatever the text is: they move the
positions of what stands behind them, and change nothing else. -/
theorem read_putIn (limit : Int) (catalog : Catalog) {text blanks : String} {place : Nat}
    (hplace : place ≤ text.length) (hbetween : (Scan.ofText text).Between place)
    (hblanks : ∀ c ∈ blanks.toList, Text.isBlank c = true) :
    (∀ formula, read limit catalog text = .ok formula →
      ∃ spaced, read limit catalog (putIn text place blanks) = .ok spaced ∧
        (∀ k, spaced.store k = formula.store k) ∧
        spaced.diagnostics =
          formula.diagnostics.map (Diagnostic.moved (shifted place blanks.length))) ∧
    ∀ e, read limit catalog text = .error e →
      read limit catalog (putIn text place blanks) = .error (e.moved (shifted place blanks.length)) := by
  have hscan := Scan.ofText_putIn hplace hbetween hblanks
  obtain ⟨hok, herror⟩ := @read_of_scan_moved _ limit catalog _ _ hscan
  have hshifted : StrictMono (shifted place blanks.length) := fun _ _ h => shifted_lt_shifted h
  exact ⟨fun formula h => ⟨_, hok formula h, formula.store_moved, formula.diagnostics_moved hshifted⟩,
    herror⟩

theorem pieces_adjoined : pieces "1.2.3AND(".toList =
    [.dropped (.malformedNumber "1.2.3".toList), .lexeme (.function "AND"), .lexeme .opening] := by
  have hnumber : nextPiece '1' ".2.3AND(".toList =
      (.dropped (.malformedNumber "1.2.3".toList), "AND(".toList) := by decide +kernel
  have hspaced : Spaced [.lexeme (.function "AND"), .lexeme .opening] :=
    ⟨rfl, by decide, trivial, by decide, trivial⟩
  have hrest : pieces "AND(".toList = _ := pieces_layout hspaced
  change pieces ('1' :: ".2.3AND(".toList) = _
  rw [pieces, hnumber, hrest]

/-- Blanks between a number that is dropped and a call move the call. -/
theorem read_putIn_adjoined : read 0 [] "1.2.3 \tAND(" = .error ⟨7, 1⟩ ∧
    ∃ spaced, read 1 [] "1.2.3 \tAND(" = .ok spaced ∧ spaced.diagnostics =
      [⟨.dropped (.malformedNumber "1.2.3".toList), 0⟩, ⟨.unclosedCall "AND", 10⟩] := by
  have hscan : Scan.ofText "1.2.3AND(" = ⟨[⟨.function "AND", 5⟩, ⟨.opening, 8⟩],
      [⟨.dropped (.malformedNumber "1.2.3".toList), 0⟩], 9⟩ := by
    rw [Scan.ofText, pieces_adjoined]
    rfl
  have hbetween : (Scan.ofText "1.2.3AND(").Between 5 := by
    rw [hscan]
    refine ⟨by decide, fun d hd piece hpiece => ?_⟩
    obtain rfl := List.mem_singleton.mp hd
    cases hpiece
    decide
  have herror : read 0 [] "1.2.3AND(" = .error ⟨5, 1⟩ := by
    rw [read_eq_error_iff, hscan]
    rfl
  have hread : read 1 [] "1.2.3AND(" = .ok ⟨Scan.ofText "1.2.3AND(",
      [.call 5 "AND" (some ⟨8, none⟩) []], [⟨.unclosedCall "AND", 8⟩]⟩ := by
    refine read_of_readTerms ?_
    rw [hscan]
    rfl
  have hblanks : ∀ c ∈ " \t".toList, Text.isBlank c = true :=
    List.all_eq_true.mp (by decide +kernel)
  refine ⟨(@read_putIn 0 [] "1.2.3AND(" " \t" 5 (by decide) hbetween hblanks).2 _ herror, ?_⟩
  obtain ⟨spaced, hspaced, -, hdiagnostics⟩ :=
    (@read_putIn 1 [] "1.2.3AND(" " \t" 5 (by decide) hbetween hblanks).1 _ hread
  refine ⟨spaced, hspaced, ?_⟩
  rw [hdiagnostics, diagnostics, hscan]
  rfl

end Formula
end Formulary
