/-
# Places in a text

No piece of a text is empty, so that no two of them start at the same place: tokens start one behind the
other, and so do the pieces that are dropped, and none of these where a token does (`nodup_places`).

Key theorems: `pairwise_tokens`, `nodup_places`.
-/
import Mathlib.Data.List.Nodup
import Formulary.Sorting
import Formulary.Token.Scan

namespace Formulary

/-- A list that is strictly in the order of its places is what its elements are sorted into. -/
theorem sortBy_of_perm {α : Type} {place : α → Nat} {l sorted : List α} (hperm : l.Perm sorted)
    (h : sorted.Pairwise fun a b => place a < place b) :
    sortBy (fun a b => place a ≤ place b) l = sorted := by
  have hsort : (sortBy (fun a b => decide (place a ≤ place b)) l).Pairwise fun a b =>
      decide (place a ≤ place b) = true :=
    sortBy_pairwise (by simp [Nat.le_total]) (by simpa using fun _ _ _ => Nat.le_trans) l
  have hsorted : (sortBy (fun a b => decide (place a ≤ place b)) l).Perm sorted :=
    (sortBy_perm _ l).trans hperm
  have hle : sorted.Pairwise fun a b => decide (place a ≤ place b) = true :=
    h.imp fun hlt => decide_eq_true (Nat.le_of_lt hlt)
  have hnodup : (sorted.map place).Nodup := List.pairwise_map.mpr (h.imp Nat.ne_of_lt)
  refine hsorted.eq_of_pairwise (fun a b ha hb hab hba => ?_) hsort hle
  refine List.inj_on_of_nodup_map hnodup (hsorted.mem_iff.mp ha) hb ?_
  exact Nat.le_antisymm (of_decide_eq_true hab) (of_decide_eq_true hba)

/-- The positions of tokens. -/
def Token.positions (tokens : List Token) : List Nat :=
  tokens.map Token.position

/-- The positions of diagnostics. -/
def Diagnostic.positions (diagnostics : List Diagnostic) : List Nat :=
  diagnostics.map Diagnostic.position

theorem text_ne_nil_of_mem_pieces (cs : List Char) : ∀ piece ∈ pieces cs, piece.text ≠ [] := by
  fun_induction pieces cs with
  | case1 => simp
  | case2 c cs ih =>
    intro piece hpiece
    rcases List.mem_cons.mp hpiece with rfl | hpiece
    · intro hnil
      have htext := text_append_nextPiece c cs
      have hlength := length_nextPiece_le c cs
      rw [hnil, List.nil_append] at htext
      rw [htext, List.length_cons] at hlength
      omega
    · exact ih piece hpiece

/-- The places of the dropped pieces and of the tokens among pieces. -/
def places (position : Nat) (ps : List Piece) : List Nat :=
  Diagnostic.positions (droppedFrom position ps) ++ Token.positions (tokensFrom position ps)

/-- What holds of the places among pieces that are not empty. -/
structure Placed (position : Nat) (ps : List Piece) : Prop where
  le : ∀ place ∈ places position ps, position ≤ place
  nodup : (places position ps).Nodup
  tokens : (Token.positions (tokensFrom position ps)).Pairwise (· < ·)

theorem placed {ps : List Piece} (h : ∀ piece ∈ ps, piece.text ≠ []) (position : Nat) :
    Placed position ps := by
  induction ps generalizing position with
  | nil => exact ⟨fun _ hplace => (by cases hplace), .nil, .nil⟩
  | cons piece rest ih =>
    have hlength : 0 < piece.text.length := List.length_pos_of_ne_nil (h piece List.mem_cons_self)
    have hrest := ih (fun p hp => h p (List.mem_cons_of_mem _ hp)) (position + piece.text.length)
    have hlt : ∀ place ∈ places (position + piece.text.length) rest, position < place := by
      intro place hplace
      have hle := hrest.le place hplace
      omega
    cases piece with
    | blank c => exact ⟨fun place hplace => Nat.le_of_lt (hlt place hplace), hrest.nodup, hrest.tokens⟩
    | lexeme l =>
      have hmiddle : (places position (.lexeme l :: rest)).Perm
          (position :: places (position + l.spelling.length) rest) := List.perm_middle
      refine ⟨fun place hplace => ?_, ?_, ?_⟩
      · rcases List.mem_cons.mp (hmiddle.mem_iff.mp hplace) with rfl | hplace
        · exact Nat.le_refl _
        · exact Nat.le_of_lt (hlt place hplace)
      · refine hmiddle.nodup_iff.mpr (List.nodup_cons.mpr ⟨fun hplace => ?_, hrest.nodup⟩)
        exact Nat.lt_irrefl _ (hlt position hplace)
      · refine List.pairwise_cons.mpr ⟨fun place hplace => ?_, hrest.tokens⟩
        exact hlt place (List.mem_append_right _ hplace)
    | dropped d =>
      refine ⟨fun place hplace => ?_, List.nodup_cons.mpr ⟨fun hplace => ?_, hrest.nodup⟩,
        hrest.tokens⟩
      · rcases List.mem_cons.mp hplace with rfl | hplace
        · exact Nat.le_refl _
        · exact Nat.le_of_lt (hlt place hplace)
      · exact Nat.lt_irrefl _ (hlt position hplace)

/-- **Tokens start one behind the other.** -/
theorem pairwise_tokens (text : String) :
    (Token.positions (Scan.ofText text).tokens).Pairwise (· < ·) :=
  (placed (text_ne_nil_of_mem_pieces text.toList) 0).tokens

/-- **Nothing that is dropped starts where a token does**, or where something else that is dropped. -/
theorem nodup_places (text : String) :
    (Diagnostic.positions (Scan.ofText text).diagnostics ++
      Token.positions (Scan.ofText text).tokens).Nodup :=
  (placed (text_ne_nil_of_mem_pieces text.toList) 0).nodup

end Formulary
