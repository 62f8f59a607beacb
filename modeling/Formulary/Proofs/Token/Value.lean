/-
# Number literals in a text

Where a scan comes to a digit, it takes the whole run of digits and points. There is one token for it if the
run is a decimal below the ceiling, and else one diagnostic, which tells whether it is the ceiling or the
run that is wrong. The literal of each number token is such a run, so that it reads as the number of the
token, and that is the number which the decimal denotes (`Scan.numbers`).

Key definitions: `Scan.tokensIn`, `Scan.diagnosticsIn`.
Key theorems: `pieces_of_isRun`, `exists_run_of_mem_tokens`, `Scan.numbers`.
-/
import Formulary.Proofs.Number.Run
import Formulary.Proofs.Token.Boundary
import Formulary.Proofs.Token.Tiled

namespace Formulary

/-! ### Runs are pieces -/

/-- **A run of digits and points is one piece**, whatever is behind it. -/
theorem pieces_of_isRun {run rest : List Char} (h : IsRun Text.isDigit continuesNumber run rest) :
    pieces (run ++ rest) = numberPiece run :: pieces rest := by
  obtain ⟨digit, hhead, hdigit⟩ := h.starts
  obtain ⟨cs, rfl⟩ : ∃ cs, run = digit :: cs := List.head?_eq_some_iff.mp hhead
  have hcs : ∀ c ∈ cs, continuesNumber c = true := fun c hc => h.all c (List.mem_cons_of_mem _ hc)
  obtain ⟨htake, hdrop⟩ := takeWhile_append_of_head? hcs h.ends
  have hblank : ¬Text.isBlank digit = true := by
    simp [isBlank_of_continuesNumber (h.all digit List.mem_cons_self)]
  have hnext : nextPiece digit (cs ++ rest) = (numberPiece (digit :: cs), rest) := by
    rw [nextPiece, if_neg hblank, if_neg (ne_of_text_digit hdigit (by decide)),
      if_neg (ne_of_text_digit hdigit (by decide)), if_neg (ne_of_text_digit hdigit (by decide)),
      if_neg (ne_of_text_digit hdigit (by decide)), if_pos hdigit, htake, hdrop]
  rw [List.cons_append, pieces, hnext]

theorem ne_value_of_wordPiece {run : List Char} {literal : String} {number : Number} :
    wordPiece run ≠ .lexeme (.value literal number) := by
  unfold wordPiece
  split_ifs <;> simp

/-- Only runs of digits and points are number tokens. -/
theorem Cut.exists_run {c : Char} {cs rest : List Char} {piece : Piece} {literal : String}
    {number : Number} (h : Cut c cs piece rest) (hpiece : piece = .lexeme (.value literal number)) :
    ∃ run, IsRun Text.isDigit continuesNumber run rest ∧
      numberPiece run = .lexeme (.value literal number) := by
  cases h with
  | number hrun => exact ⟨_, hrun, hpiece⟩
  | word => exact (ne_value_of_wordPiece hpiece).elim
  | _ => cases hpiece

theorem exists_run_of_mem_tokens {cs : List Char} {t : Token} {literal : String} {number : Number}
    {position : Nat} (ht : t ∈ tokensFrom position (pieces cs)) (hvalue : t.lexeme = .value literal number) :
    ∃ run rest, IsRun Text.isDigit continuesNumber run rest ∧
      numberPiece run = .lexeme (.value literal number) := by
  fun_induction pieces cs generalizing position with
  | case1 => cases ht
  | case2 c cs ih =>
    cases hpiece : (nextPiece c cs).1 with
    | blank b =>
      rw [hpiece] at ht
      exact ih ht
    | dropped d =>
      rw [hpiece] at ht
      exact ih ht
    | lexeme l =>
      rw [hpiece] at ht
      rcases List.mem_cons.mp ht with rfl | ht
      · obtain rfl : l = .value literal number := hvalue
        obtain ⟨run, hrun, hnumber⟩ := (cut_nextPiece c cs).exists_run hpiece
        exact ⟨run, _, hrun, hnumber⟩
      · exact ih ht

/-! ### What a scan gives in a part of the text -/

/-- The tokens that start from one place on and before another. -/
def Scan.tokensIn (scan : Scan) (first last : Nat) : List Token :=
  scan.tokens.filter fun t => decide (first ≤ t.position ∧ t.position < last)

/-- The diagnostics from one place on and before another. -/
def Scan.diagnosticsIn (scan : Scan) (first last : Nat) : List Diagnostic :=
  scan.diagnostics.filter fun d => decide (first ≤ d.position ∧ d.position < last)

/-- Of what stands before, in and behind a range the range has what stands in it. -/
theorem filter_in_range {α : Type} {position : α → Nat} {before within behind : List α}
    {first last : Nat} (hbefore : ∀ a ∈ before, position a < first)
    (hwithin : ∀ a ∈ within, first ≤ position a ∧ position a < last)
    (hbehind : ∀ a ∈ behind, last ≤ position a) :
    (before ++ (within ++ behind)).filter (fun a => decide (first ≤ position a ∧ position a < last)) =
      within := by
  rw [List.filter_append, List.filter_append, List.filter_eq_nil_iff.mpr, List.nil_append,
    List.filter_eq_self.mpr, List.filter_eq_nil_iff.mpr, List.append_nil]
  · intro a ha
    have hle := hbehind a ha
    rw [decide_eq_true_eq]
    omega
  · exact fun a ha => decide_eq_true (hwithin a ha)
  · intro a ha
    have hlt := hbefore a ha
    rw [decide_eq_true_eq]
    omega

/-- **A scan gives in the range of a piece what the piece gives.** -/
theorem Scan.in_piece {text : String} {ps qs : List Piece} {piece : Piece} {place : Nat}
    (h : pieces text.toList = ps ++ piece :: qs) (hplace : (ps.flatMap Piece.text).length = place) :
    (Scan.ofText text).tokensIn place (place + piece.text.length) = tokensFrom place [piece] ∧
      (Scan.ofText text).diagnosticsIn place (place + piece.text.length) = droppedFrom place [piece] := by
  have hfull := text_ne_nil_of_mem_pieces text.toList
  rw [h] at hfull
  have hlength : 0 < piece.text.length :=
    List.length_pos_of_ne_nil (hfull piece (List.mem_append_right _ List.mem_cons_self))
  have hfinish : finishFrom 0 ps = place := by rw [finishFrom_eq, hplace, Nat.zero_add]
  have hone : finishFrom place [piece] = place + piece.text.length := rfl
  have hbefore : ∀ position ∈ places 0 ps, position < place := fun position hposition =>
    hfinish ▸ lt_of_mem_places (fun p hp => hfull p (List.mem_append_left _ hp)) hposition
  have hbehind : ∀ position ∈ places (place + piece.text.length) qs,
      place + piece.text.length ≤ position :=
    (placed (fun p hp => hfull p (List.mem_append_right _ (List.mem_cons_of_mem _ hp))) _).le
  have hsplit : pieces text.toList = ps ++ ([piece] ++ qs) := h
  constructor
  · have hplaced : ∀ t ∈ tokensFrom place [piece], t.position = place := by
      cases piece <;> simp [tokensFrom]
    rw [tokensIn, Scan.ofText, hsplit, tokensFrom_append, tokensFrom_append, hfinish, hone]
    refine filter_in_range (fun t ht => ?_) (fun t ht => ?_) fun t ht => ?_
    · exact hbefore _ (List.mem_append_right _ (List.mem_map_of_mem ht))
    · exact ⟨(hplaced t ht).ge, by rw [hplaced t ht]; omega⟩
    · exact hbehind _ (List.mem_append_right _ (List.mem_map_of_mem ht))
  · have hplaced : ∀ d ∈ droppedFrom place [piece], d.position = place := by
      cases piece <;> simp [droppedFrom]
    rw [diagnosticsIn, Scan.ofText, hsplit, droppedFrom_append, droppedFrom_append, hfinish, hone]
    refine filter_in_range (fun d hd => ?_) (fun d hd => ?_) fun d hd => ?_
    · exact hbefore _ (List.mem_append_left _ (List.mem_map_of_mem hd))
    · exact ⟨(hplaced d hd).ge, by rw [hplaced d hd]; omega⟩
    · exact hbehind _ (List.mem_append_left _ (List.mem_map_of_mem hd))

/-! ### Number literals -/

theorem exists_digit_of_isRun {run rest : List Char} (h : IsRun Text.isDigit continuesNumber run rest) :
    ∃ c ∈ run, c ≠ '.' := by
  obtain ⟨digit, hhead, hdigit⟩ := h.starts
  refine ⟨digit, List.mem_of_mem_head? hhead, ?_⟩
  rintro rfl
  exact absurd hdigit (by decide +kernel)

/-- **Number literals are accepted exactly, and converted without failure.** Of every run of digits and
points that a scan comes to, it makes one number token if the run is a decimal below the ceiling, and else
drops it with one diagnostic. The literal of every number token reads as a number, and that is what the
decimal denotes: the integer, or with a point the nearest double, which is finite and not negative. -/
theorem Scan.numbers (text : String) :
    (∀ front run back : List Char, text.toList = front ++ (run ++ back) →
      Reaches text.toList (run ++ back) → IsRun Text.isDigit continuesNumber run back →
      (IsDecimal run ∧ decimalOf run < Number.ceiling →
        (∃ number, (Scan.ofText text).tokensIn front.length (front.length + run.length) =
          [⟨.value (String.ofList run) number, front.length⟩]) ∧
        (Scan.ofText text).diagnosticsIn front.length (front.length + run.length) = []) ∧
      (¬(IsDecimal run ∧ decimalOf run < Number.ceiling) →
        (Scan.ofText text).tokensIn front.length (front.length + run.length) = [] ∧
        (Scan.ofText text).diagnosticsIn front.length (front.length + run.length) =
          [⟨.dropped (if IsDecimal run then .numberOutOfRange run else .malformedNumber run),
            front.length⟩])) ∧
    ∀ t ∈ (Scan.ofText text).tokens, ∀ literal number, t.lexeme = .value literal number →
      Number.ofLiteral literal = .ok number ∧ number.Denotes literal.toList := by
  refine ⟨fun front run back htext hreach hrun => ?runs, fun t ht literal number hvalue => ?tokens⟩
  case runs =>
    have hdigit := exists_digit_of_isRun hrun
    obtain ⟨ps, hpieces, hfront⟩ := hreach.exists_pieces
    rw [pieces_of_isRun hrun] at hpieces
    rw [htext] at hfront
    have hin := Scan.in_piece hpieces (congrArg List.length (List.append_cancel_right hfront))
    rw [text_numberPiece] at hin
    refine ⟨fun haccepted => ?_, fun hnot => ?_⟩
    · obtain ⟨number, hnumber, -⟩ := numberPiece_of_isDecimal haccepted.1 hdigit haccepted.2
      rw [hnumber] at hin
      exact ⟨⟨number, hin.1⟩, hin.2⟩
    · rw [numberPiece_of_not hdigit hnot] at hin
      exact hin
  case tokens =>
    obtain ⟨run, rest, hrun, hnumber⟩ := exists_run_of_mem_tokens ht hvalue
    obtain ⟨rfl, -⟩ := exists_numeral_of_numberPiece hnumber
    refine ⟨Number.ofLiteral_of_numberPiece hrun.starts hrun.all hnumber, ?_⟩
    rw [String.toList_ofList]
    exact denotes_of_numberPiece (exists_digit_of_isRun hrun) hnumber

/-- Digits of two scripts around a point make a double, and a superscript makes no number. -/
theorem Scan.numbers_mixed :
    (∃ number, (Scan.ofText "٣.5 1²").tokensIn 0 3 = [⟨.value "٣.5" number, 0⟩] ∧
      Number.ofLiteral "٣.5" = .ok number ∧
      ∃ m, number = .real (.finite false m) ∧ m.IsNearest (7 / 2)) ∧
    (Scan.ofText "٣.5 1²").tokensIn 4 6 = [] ∧
    (Scan.ofText "٣.5 1²").diagnosticsIn 4 6 = [⟨.dropped (.malformedNumber "1²".toList), 4⟩] := by
  obtain ⟨hruns, htokens⟩ := Scan.numbers "٣.5 1²"
  have hvalue : decimalOf "٣.5".toList = 7 / 2 := by
    have hdigits : Text.natOfDigits "٣.5".toList = 35 := by decide +kernel
    have hplaces : placesOf "٣.5".toList = 1 := by decide
    rw [decimalOf, hdigits, hplaces]
    norm_num
  have hlt : decimalOf "٣.5".toList < Number.ceiling := by
    have hceiling : 4 ≤ Number.ceiling := by decide +kernel
    rw [hvalue]
    exact lt_of_lt_of_le (by norm_num) (Nat.ofNat_le_cast.mpr hceiling)
  have hfirst : IsRun Text.isDigit continuesNumber "٣.5".toList " 1²".toList := by
    refine ⟨⟨'٣', rfl, by decide +kernel⟩, List.all_eq_true.mp (by decide +kernel), fun c hc => ?_⟩
    obtain rfl := Option.some.inj hc
    decide +kernel
  have hsecond : IsRun Text.isDigit continuesNumber "1²".toList [] :=
    ⟨⟨'1', rfl, by decide +kernel⟩, List.all_eq_true.mp (by decide +kernel), fun c hc => by cases hc⟩
  have hbehind : (nextPiece '٣' ".5 1²".toList).2 = " 1²".toList := by decide +kernel
  have hblank : (nextPiece ' ' "1²".toList).2 = "1²".toList := by decide +kernel
  have hreach : Reaches "٣.5 1²".toList ("1²".toList ++ []) := by
    have hspace : Reaches " 1²".toList "1²".toList := .behind (hblank ▸ .here _)
    exact .behind (hbehind ▸ hspace)
  obtain ⟨⟨number, hnumber⟩, -⟩ :=
    (hruns [] "٣.5".toList " 1²".toList rfl (.here _) hfirst).1 ⟨by decide +kernel, hlt⟩
  obtain ⟨hnone, hdropped⟩ := (hruns "٣.5 ".toList "1²".toList [] rfl hreach hsecond).2
    fun haccepted => absurd haccepted.1 (by decide +kernel)
  have hmem : ⟨.value "٣.5" number, 0⟩ ∈ (Scan.ofText "٣.5 1²").tokens :=
    (List.mem_filter.mp (hnumber ▸ List.mem_cons_self)).1
  obtain ⟨hliteral, hdenotes⟩ := htokens _ hmem "٣.5" number rfl
  refine ⟨⟨number, hnumber, hliteral, hvalue ▸ hdenotes.real (by decide)⟩, hnone, ?_⟩
  rw [if_neg (by decide +kernel)] at hdropped
  exact hdropped

end Formulary
