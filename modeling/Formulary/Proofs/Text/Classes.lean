/-
# Classes of characters apart

Classes of characters are ranges of code points, and what two of them have in common is decided by going
through the code points of one. Blanks end every run; digits are no letters, signs or underscores.

Key definition: `Text.points`.
Key theorems: `Text.blank_points_apart`, `Text.digit_points_apart`.
-/
import Formulary.Token.Piece

namespace Formulary

/-! ### Code points -/

namespace Text

/-- The code points in ranges. -/
def points (ranges : List (Nat × Nat)) : List Nat :=
  ranges.flatMap fun (low, high) => List.range' low (high + 1 - low)

theorem mem_points_of_covers {ranges : List (Nat × Nat)} {n : Nat} (h : covers ranges n = true) :
    n ∈ points ranges := by
  induction ranges with
  | nil => cases h
  | cons range rest ih =>
    obtain ⟨low, high⟩ := range
    simp only [covers, Bool.and_eq_true, Bool.or_eq_true, decide_eq_true_eq] at h
    rw [points, List.flatMap_cons, List.mem_append]
    rcases h.2 with hhigh | hrest
    · exact .inl (List.mem_range'_1.mpr ⟨h.1, by omega⟩)
    · exact .inr (ih hrest)

/-- No blank has a digit value, is a letter or has a numeric value. -/
theorem blank_points_apart : ∀ n ∈ points blankRanges, covers digitRanges n = false ∧
    covers letterRanges n = false ∧ covers numeralRanges n = false := by
  decide +kernel

theorem blank_points_symbols : ∀ n ∈ points blankRanges, n ∉ "<>=!+-*/^%._\x7d".toList.map Char.toNat := by
  decide +kernel

/-- No digit is an ASCII letter, a sign, an underscore, a parenthesis, a comma, an opening brace or a
blank. -/
theorem digit_points_apart : ∀ n ∈ points digitRanges, n ∉ "+-_(),\x7b".toList.map Char.toNat ∧
    (n < 65 ∨ 122 < n) ∧ covers blankRanges n = false := by
  decide +kernel

end Text

/-! ### Blanks -/

section Blank

variable {c : Char} (h : Text.isBlank c = true)

include h

theorem ne_of_isBlank {d : Char} (hd : d ∈ "<>=!+-*/^%._\x7d".toList) : c ≠ d := by
  rintro rfl
  exact Text.blank_points_symbols _ (Text.mem_points_of_covers h) (List.mem_map_of_mem hd)

theorem continuesNumber_of_isBlank : continuesNumber c = false := by
  have hpoint : c ≠ '.' := ne_of_isBlank h (by decide)
  have hdigit : Text.isDigit c = false :=
    (Text.blank_points_apart _ (Text.mem_points_of_covers h)).1
  simp [continuesNumber, hdigit, hpoint]

theorem continuesWord_of_isBlank : continuesWord c = false := by
  obtain ⟨-, hletter, hnumeral⟩ := Text.blank_points_apart _ (Text.mem_points_of_covers h)
  have hline : c ≠ '_' := ne_of_isBlank h (by decide)
  simp only [continuesWord, Text.isLetter, Text.isNumeral, hletter, hnumeral, hline, decide_false,
    Bool.or_self]

theorem isSymbol_of_isBlank : isSymbol c = false := by
  have hmem : c ∉ "<>=!+-*/^%".toList := by
    intro hmem
    have hsub : "<>=!+-*/^%".toList ⊆ "<>=!+-*/^%._\x7d".toList := by decide
    exact ne_of_isBlank h (hsub hmem) rfl
  simpa [isSymbol] using hmem

end Blank

/-! ### Digits and points -/

section Digit

variable {c : Char}

theorem ne_of_text_digit (h : Text.isDigit c = true) {d : Char} (hd : d ∈ "+-_(),\x7b".toList) :
    c ≠ d := by
  rintro rfl
  exact (Text.digit_points_apart _ (Text.mem_points_of_covers h)).1 (List.mem_map_of_mem hd)

/-- No ASCII letter is a digit. -/
theorem ne_of_letter (h : Text.isDigit c = true) {d : Char} (hd : 65 ≤ d.toNat ∧ d.toNat ≤ 122) :
    c ≠ d := by
  rintro rfl
  have hapart := (Text.digit_points_apart _ (Text.mem_points_of_covers h)).2.1
  omega

theorem toLower_of_digit (h : Text.isDigit c = true) : c.toLower = c := by
  have hapart := (Text.digit_points_apart _ (Text.mem_points_of_covers h)).2.1
  unfold Char.toLower
  refine dif_neg ?_
  rintro ⟨hlow, hhigh⟩
  have hlow : 65 ≤ c.toNat := UInt32.le_iff_toNat_le.mp hlow
  have hhigh : c.toNat ≤ 90 := UInt32.le_iff_toNat_le.mp hhigh
  omega

theorem isBlank_of_continuesNumber (h : continuesNumber c = true) : Text.isBlank c = false := by
  rw [continuesNumber, Bool.or_eq_true] at h
  rcases h with hdigit | hpoint
  · exact (Text.digit_points_apart _ (Text.mem_points_of_covers hdigit)).2.2
  · rw [of_decide_eq_true hpoint]
    decide

end Digit

end Formulary
