/-
# Texts one behind the other

A text is scanned as if nothing followed it, where a blank, a parenthesis or a comma follows, unless it
has an opening brace without a closing one (`pieces_append`). What the pieces behind it give is moved by
its length.

Key definitions: `Token.moved`, `Diagnostic.moved`.
Key theorems: `pieces_append`, `tokensFrom_append`, `tokensFrom_text`.
-/
import Formulary.Proofs.Token.Layout
import Formulary.Proofs.Token.Places

namespace Formulary

/-! ### Pieces -/

section Runs

variable {p : Char → Bool} {rest : List Char}

/-- A run ends where a text ends, if what follows does not prolong it. -/
theorem takeWhile_append_of_endsRun (cs : List Char) (hrest : EndsRun rest)
    (hp : ∀ c ∈ [' ', '(', ')', ','], p c = false) : (cs ++ rest).takeWhile p = cs.takeWhile p := by
  rw [List.takeWhile_append]
  split
  · next hall =>
    rw [(takeWhile_of_endsRun hrest hp).1, List.append_nil]
    exact ((List.takeWhile_prefix p).eq_of_length hall).symm
  · rfl

theorem dropWhile_append_of_endsRun (cs : List Char) (hrest : EndsRun rest)
    (hp : ∀ c ∈ [' ', '(', ')', ','], p c = false) :
    (cs ++ rest).dropWhile p = cs.dropWhile p ++ rest := by
  rw [List.dropWhile_append]
  split
  · next hnil => rw [(takeWhile_of_endsRun hrest hp).2, List.isEmpty_iff.mp hnil, List.nil_append]
  · rfl

end Runs

/-- A closing brace is found where it was found without the text behind it. -/
theorem takeWhile_append_of_brace {cs after : List Char} {brace : Char}
    (h : cs.dropWhile (· ≠ '}') = brace :: after) (rest : List Char) :
    (cs ++ rest).takeWhile (· ≠ '}') = cs.takeWhile (· ≠ '}') ∧
      (cs ++ rest).dropWhile (· ≠ '}') = brace :: (after ++ rest) := by
  have hlength := congrArg List.length (List.takeWhile_append_dropWhile (p := (· ≠ '}')) (l := cs))
  rw [List.length_append, h, List.length_cons] at hlength
  rw [List.takeWhile_append, if_neg (by omega), List.dropWhile_append, h]
  exact ⟨rfl, rfl⟩

/-- The first piece of a text does not depend on what ends its runs. -/
theorem nextPiece_append {c : Char} {cs rest : List Char}
    (hbrace : (nextPiece c cs).1 ≠ .dropped .loneBrace) (hrest : EndsRun rest) :
    nextPiece c (cs ++ rest) = ((nextPiece c cs).1, (nextPiece c cs).2 ++ rest) := by
  unfold nextPiece at hbrace ⊢
  split
  · rfl
  split
  · rfl
  split
  · rfl
  split
  · rfl
  split
  · next hblank hopening hclosing hcomma hc =>
    cases hdrop : cs.dropWhile (· ≠ '}') with
    | nil =>
      rw [if_neg hblank, if_neg hopening, if_neg hclosing, if_neg hcomma, if_pos hc, hdrop] at hbrace
      exact (hbrace rfl).elim
    | cons brace after =>
      obtain ⟨htake, hdrop'⟩ := takeWhile_append_of_brace hdrop rest
      rw [htake, hdrop']
  split
  · rw [takeWhile_append_of_endsRun cs hrest ends_number,
      dropWhile_append_of_endsRun cs hrest ends_number]
  split
  · rw [takeWhile_append_of_endsRun cs hrest ends_word, dropWhile_append_of_endsRun cs hrest ends_word]
  split
  · rw [takeWhile_append_of_endsRun cs hrest ends_symbol,
      dropWhile_append_of_endsRun cs hrest ends_symbol]
  · rfl

/-- **A text is scanned as if nothing followed it**, where what follows ends its runs and its braces
are closed. -/
theorem pieces_append {cs rest : List Char} (hbrace : .dropped .loneBrace ∉ pieces cs)
    (hrest : EndsRun rest) : pieces (cs ++ rest) = pieces cs ++ pieces rest := by
  fun_induction pieces cs with
  | case1 => rfl
  | case2 c cs ih =>
    have hfirst := List.ne_of_not_mem_cons hbrace
    have hbehind := List.not_mem_of_not_mem_cons hbrace
    rw [List.cons_append, pieces, nextPiece_append (Ne.symm hfirst) hrest, ih hbehind]
    rfl

theorem endsRun_cons {c : Char} (h : c ∈ [' ', '(', ')', ',']) (rest : List Char) :
    EndsRun (c :: rest) := by
  intro d hd
  obtain rfl := Option.some.inj hd
  exact h

theorem pieces_opening (rest : List Char) : pieces ('(' :: rest) = .lexeme .opening :: pieces rest :=
  pieces_lexeme (l := .opening) trivial fun hrun => by cases hrun

theorem pieces_closing (rest : List Char) : pieces (')' :: rest) = .lexeme .closing :: pieces rest :=
  pieces_lexeme (l := .closing) trivial fun hrun => by cases hrun

theorem pieces_comma (rest : List Char) : pieces (',' :: rest) = .lexeme .comma :: pieces rest :=
  pieces_lexeme (l := .comma) trivial fun hrun => by cases hrun

theorem pieces_space (rest : List Char) : pieces (' ' :: rest) = .blank ' ' :: pieces rest := by
  rw [pieces]
  rfl

/-! ### Positions -/

/-- A token at the place that its position is moved to. -/
def Token.moved (f : Nat → Nat) (t : Token) : Token :=
  { t with position := f t.position }

/-- A diagnostic at the place that its position is moved to. -/
def Diagnostic.moved (f : Nat → Nat) (d : Diagnostic) : Diagnostic :=
  { d with position := f d.position }

theorem exists_mem_droppedFrom {d : Dropped} {ps : List Piece} (h : .dropped d ∈ ps) (position : Nat) :
    ∃ place, ⟨.dropped d, place⟩ ∈ droppedFrom position ps := by
  induction ps generalizing position with
  | nil => cases h
  | cons piece rest ih =>
    rcases List.mem_cons.mp h with rfl | h
    · exact ⟨position, List.mem_cons_self⟩
    · obtain ⟨place, hplace⟩ := ih h (position + piece.text.length)
      refine ⟨place, ?_⟩
      cases piece with
      | dropped _ => exact List.mem_cons_of_mem _ hplace
      | _ => exact hplace

theorem finishFrom_eq (position : Nat) (ps : List Piece) :
    finishFrom position ps = position + (ps.flatMap Piece.text).length := by
  induction ps generalizing position with
  | nil => rfl
  | cons piece rest ih =>
    rw [finishFrom, ih, List.flatMap_cons, List.length_append, Nat.add_assoc]

/-- Dropped pieces and tokens start before the end of the pieces. -/
theorem lt_of_mem_places {ps : List Piece} (h : ∀ piece ∈ ps, piece.text ≠ []) {position place : Nat}
    (hplace : place ∈ places position ps) : place < finishFrom position ps := by
  induction ps generalizing position with
  | nil => cases hplace
  | cons piece rest ih =>
    have hlength : 0 < piece.text.length := List.length_pos_of_ne_nil (h piece List.mem_cons_self)
    have hfirst : position < finishFrom position (piece :: rest) := by
      rw [finishFrom, finishFrom_eq]
      omega
    have hrest : place ∈ places (position + piece.text.length) rest →
        place < finishFrom position (piece :: rest) :=
      ih fun p hp => h p (List.mem_cons_of_mem _ hp)
    cases piece with
    | blank c => exact hrest hplace
    | lexeme l =>
      rcases List.mem_cons.mp (List.perm_middle.mem_iff.mp hplace) with rfl | hplace
      · exact hfirst
      · exact hrest hplace
    | dropped d =>
      rcases List.mem_cons.mp hplace with rfl | hplace
      · exact hfirst
      · exact hrest hplace

theorem tokensFrom_append (position : Nat) (ps qs : List Piece) :
    tokensFrom position (ps ++ qs) =
      tokensFrom position ps ++ tokensFrom (finishFrom position ps) qs := by
  induction ps generalizing position with
  | nil => rfl
  | cons piece rest ih => cases piece <;> simp [tokensFrom, finishFrom, Piece.text, ih]

theorem droppedFrom_append (position : Nat) (ps qs : List Piece) :
    droppedFrom position (ps ++ qs) =
      droppedFrom position ps ++ droppedFrom (finishFrom position ps) qs := by
  induction ps generalizing position with
  | nil => rfl
  | cons piece rest ih => cases piece <;> simp [droppedFrom, finishFrom, Piece.text, ih]

/-- The tokens of pieces that start later are moved. -/
theorem tokensFrom_add (n position : Nat) (ps : List Piece) :
    tokensFrom (n + position) ps = (tokensFrom position ps).map (Token.moved (n + ·)) := by
  induction ps generalizing position with
  | nil => rfl
  | cons piece rest ih => cases piece <;> simp [tokensFrom, Nat.add_assoc, ih, Token.moved]

theorem droppedFrom_add (n position : Nat) (ps : List Piece) :
    droppedFrom (n + position) ps = (droppedFrom position ps).map (Diagnostic.moved (n + ·)) := by
  induction ps generalizing position with
  | nil => rfl
  | cons piece rest ih => cases piece <;> simp [droppedFrom, Nat.add_assoc, ih, Diagnostic.moved]

/-- The tokens of a text that starts later, and of the pieces behind it. -/
theorem tokensFrom_text (n : Nat) (text : String) (qs : List Piece) :
    tokensFrom n (pieces text.toList ++ qs) =
      (Scan.ofText text).tokens.map (Token.moved (n + ·)) ++ tokensFrom (n + text.length) qs := by
  rw [tokensFrom_append, finishFrom_eq, flatMap_text_pieces, String.length_toList,
    ← Nat.add_zero n, tokensFrom_add]
  rfl

theorem droppedFrom_text (n : Nat) (text : String) (qs : List Piece) :
    droppedFrom n (pieces text.toList ++ qs) =
      (Scan.ofText text).diagnostics.map (Diagnostic.moved (n + ·)) ++
        droppedFrom (n + text.length) qs := by
  rw [droppedFrom_append, finishFrom_eq, flatMap_text_pieces, String.length_toList,
    ← Nat.add_zero n, droppedFrom_add]
  rfl

end Formulary
