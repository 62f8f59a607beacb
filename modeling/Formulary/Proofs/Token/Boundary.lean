/-
# Boundaries between pieces

A scan comes to a rest of the text if a piece starts there, or the text ends. That is so at every place
that is inside no token and no text that is dropped (`reaches_of_between`). What stands before such a
place falls into the same pieces whatever stands behind it, as long as that starts with a blank and does
not bring the first closing brace (`exists_pieces_append`). So blanks at such a place change nothing but
the positions behind them (`Scan.ofText_putIn`).

Key definitions: `Reaches`, `Scan.Between`, `putIn`, `shifted`.
Key theorems: `reaches_of_between`, `exists_pieces_append`, `Scan.ofText_putIn`.
-/
import Formulary.Proofs.Text.Classes
import Formulary.Proofs.Token.Append

namespace Formulary

/-! ### The places that a scan comes to -/

/-- Whether the scan of a text comes to a rest of it: a piece starts there, or the text ends. -/
inductive Reaches : List Char → List Char → Prop
  | here (cs : List Char) : Reaches cs cs
  | behind {c : Char} {cs rest : List Char} (h : Reaches (nextPiece c cs).2 rest) :
    Reaches (c :: cs) rest

/-- The pieces before a place that a scan comes to are the text before it. -/
theorem Reaches.exists_pieces {cs rest : List Char} (h : Reaches cs rest) :
    ∃ ps, pieces cs = ps ++ pieces rest ∧ ps.flatMap Piece.text ++ rest = cs := by
  induction h with
  | here cs => exact ⟨[], rfl, rfl⟩
  | @behind c cs rest _ ih =>
    obtain ⟨ps, hpieces, htext⟩ := ih
    refine ⟨(nextPiece c cs).1 :: ps, by rw [pieces, hpieces, List.cons_append], ?_⟩
    rw [List.flatMap_cons, List.append_assoc, htext, text_append_nextPiece]

/-- Texts that no piece before them goes on into: they are empty or start with a blank. -/
def StartsBlank (cs : List Char) : Prop := ∀ c ∈ cs.head?, Text.isBlank c = true

section Locality

variable {p : Char → Bool} {cs rest back other : List Char}

/-- A run that ends before the rest of a text ends there whatever the rest is. -/
theorem run_append (hother : StartsBlank other) (hp : ∀ c, Text.isBlank c = true → p c = false)
    (h : (cs ++ back).dropWhile p = rest ++ back) :
    (cs ++ other).takeWhile p = (cs ++ back).takeWhile p ∧
      (cs ++ other).dropWhile p = rest ++ other := by
  have hcs : (cs ++ back).takeWhile p ++ rest = cs := by
    have hsplit := List.takeWhile_append_dropWhile (p := p) (l := cs ++ back)
    rw [h, ← List.append_assoc] at hsplit
    exact List.append_cancel_right hsplit
  have hrun : ∀ c ∈ (cs ++ back).takeWhile p, p c = true := fun c hc => List.mem_takeWhile_imp hc
  have hstop : ∀ c ∈ (rest ++ other).head?, p c = false := by
    intro c hc
    cases rest with
    | nil => exact hp c (hother c hc)
    | cons d rest =>
      obtain rfl := Option.some.inj hc
      have hnot := List.head?_dropWhile_not p (cs ++ back)
      rw [h] at hnot
      simpa using hnot
  generalize (cs ++ back).takeWhile p = run at hcs hrun
  subst hcs
  rw [List.append_assoc]
  exact takeWhile_append_of_head? hrun hstop

/-- A closing brace that is found in front of a text stands before it. -/
theorem dropWhile_of_append {brace : Char}
    (h : (cs ++ back).dropWhile (· ≠ '}') = brace :: (rest ++ back)) :
    cs.dropWhile (· ≠ '}') = brace :: rest := by
  rw [List.dropWhile_append] at h
  split at h
  · have hlength := (List.dropWhile_suffix (l := back) (· ≠ '}')).length_le
    rw [h, List.length_cons, List.length_append] at hlength
    omega
  · exact List.append_cancel_right h

/-- Where there is no closing brace, none is brought by a text that has one only if the text in its place
had one. -/
theorem dropWhile_append_of_no_brace (hbrace : '}' ∈ other → '}' ∈ back)
    (h : (cs ++ back).dropWhile (· ≠ '}') = []) : (cs ++ other).dropWhile (· ≠ '}') = [] := by
  rw [List.dropWhile_eq_nil_iff] at h ⊢
  intro d hd
  rcases List.mem_append.mp hd with hd | hd
  · exact h d (List.mem_append_left _ hd)
  · rw [decide_eq_true_eq]
    rintro rfl
    simpa using h '}' (List.mem_append_right _ (hbrace hd))

/-- A piece that ends before the rest of a text is the same whatever the rest is. -/
theorem nextPiece_append_of_blank {c : Char} (hother : StartsBlank other)
    (hbrace : '}' ∈ other → '}' ∈ back) (h : (nextPiece c (cs ++ back)).2 = rest ++ back) :
    nextPiece c (cs ++ other) = ((nextPiece c (cs ++ back)).1, rest ++ other) := by
  have hwhole : cs ++ back = rest ++ back → cs ++ other = rest ++ other := fun heq => by
    rw [List.append_cancel_right heq]
  have hrun := fun p hp h => @run_append p cs rest back other hother hp h
  unfold nextPiece at h ⊢
  split at h
  · next hc => simp only [if_pos hc, hwhole h]
  split at h
  · next hnot hc => simp only [if_neg hnot, if_pos hc, hwhole h]
  split at h
  · next h₁ h₂ hc => simp only [if_neg h₁, if_neg h₂, if_pos hc, hwhole h]
  split at h
  · next h₁ h₂ h₃ hc => simp only [if_neg h₁, if_neg h₂, if_neg h₃, if_pos hc, hwhole h]
  split at h
  · next h₁ h₂ h₃ h₄ hc =>
    simp only [if_neg h₁, if_neg h₂, if_neg h₃, if_neg h₄, if_pos hc]
    cases hdrop : (cs ++ back).dropWhile (· ≠ '}') with
    | nil =>
      rw [hdrop] at h
      rw [dropWhile_append_of_no_brace hbrace hdrop, hwhole h]
    | cons brace after =>
      rw [hdrop] at h
      obtain rfl : after = rest ++ back := h
      have hcs := dropWhile_of_append hdrop
      have hback := (takeWhile_append_of_brace hcs back).1
      obtain ⟨htake, hother⟩ := takeWhile_append_of_brace hcs other
      rw [htake, hother, hback]
  split at h
  · next h₁ h₂ h₃ h₄ h₅ hc =>
    obtain ⟨htake, hdrop⟩ := hrun _ (fun _ => continuesNumber_of_isBlank) h
    simp only [if_neg h₁, if_neg h₂, if_neg h₃, if_neg h₄, if_neg h₅, if_pos hc, htake, hdrop]
  split at h
  · next h₁ h₂ h₃ h₄ h₅ h₆ hc =>
    obtain ⟨htake, hdrop⟩ := hrun _ (fun _ => continuesWord_of_isBlank) h
    simp only [if_neg h₁, if_neg h₂, if_neg h₃, if_neg h₄, if_neg h₅, if_neg h₆, if_pos hc, htake, hdrop]
  split at h
  · next h₁ h₂ h₃ h₄ h₅ h₆ h₇ hc =>
    obtain ⟨htake, hdrop⟩ := hrun _ (fun _ => isSymbol_of_isBlank) h
    simp only [if_neg h₁, if_neg h₂, if_neg h₃, if_neg h₄, if_neg h₅, if_neg h₆, if_neg h₇, if_pos hc,
      htake, hdrop]
  · next h₁ h₂ h₃ h₄ h₅ h₆ h₇ h₈ =>
    simp only [if_neg h₁, if_neg h₂, if_neg h₃, if_neg h₄, if_neg h₅, if_neg h₆, if_neg h₇, if_neg h₈,
      hwhole h]

end Locality

/-- **What stands before a place that a scan comes to falls into the same pieces whatever stands behind
it**, if that starts with a blank and has no closing brace where there was none. -/
theorem exists_pieces_append {back other : List Char} (hother : StartsBlank other)
    (hbrace : '}' ∈ other → '}' ∈ back) {cs front : List Char} (h : Reaches cs back)
    (hcs : cs = front ++ back) :
    ∃ ps, ps.flatMap Piece.text = front ∧ pieces cs = ps ++ pieces back ∧
      pieces (front ++ other) = ps ++ pieces other := by
  induction h generalizing front with
  | here cs =>
    obtain rfl : front = [] := by simpa using hcs
    exact ⟨[], rfl, rfl, rfl⟩
  | @behind c cs back h ih =>
    obtain ⟨ps, -, htext⟩ := h.exists_pieces
    cases front with
    | nil =>
      -- The piece is not empty, so that the text behind it does not have the whole text as its rest.
      have hlength := length_nextPiece_le c cs
      rw [← htext, List.length_append, List.nil_append] at *
      rw [← hcs, List.length_cons] at hlength
      omega
    | cons d front =>
      rw [List.cons_append, List.cons.injEq] at hcs
      obtain ⟨rfl, rfl⟩ := hcs
      obtain ⟨qs, hfront, hpieces, hother'⟩ := ih hbrace htext.symm
      have hnext := nextPiece_append_of_blank hother hbrace htext.symm
      have hwhole := text_append_nextPiece c (front ++ back)
      rw [← htext, ← List.append_assoc, ← List.cons_append] at hwhole
      refine ⟨(nextPiece c (front ++ back)).1 :: qs, ?_, ?_, ?_⟩
      · rw [List.flatMap_cons, hfront]
        exact List.append_cancel_right hwhole
      · rw [pieces, hpieces, List.cons_append]
      · rw [List.cons_append, pieces, hnext, hother', List.cons_append]

theorem pieces_blanks (back : List Char) : ∀ {blanks : List Char},
    (∀ c ∈ blanks, Text.isBlank c = true) →
    pieces (blanks ++ back) = blanks.map Piece.blank ++ pieces back
  | [], _ => rfl
  | c :: blanks, h => by
    have hc : nextPiece c (blanks ++ back) = (.blank c, blanks ++ back) := by
      rw [nextPiece, if_pos (h c List.mem_cons_self)]
    rw [List.cons_append, pieces, hc, pieces_blanks back fun d hd => h d (List.mem_cons_of_mem c hd),
      List.map_cons, List.cons_append]

/-- Blanks at a place that a scan comes to are pieces between those before it and those behind it. -/
theorem exists_pieces_blanks {front back blanks : List Char} (h : Reaches (front ++ back) back)
    (hblanks : ∀ c ∈ blanks, Text.isBlank c = true) :
    ∃ ps, ps.flatMap Piece.text = front ∧ pieces (front ++ back) = ps ++ pieces back ∧
      pieces (front ++ (blanks ++ back)) = ps ++ (blanks.map Piece.blank ++ pieces back) := by
  cases blanks with
  | nil =>
    obtain ⟨ps, hpieces, htext⟩ := h.exists_pieces
    exact ⟨ps, List.append_cancel_right htext, hpieces, hpieces⟩
  | cons c blanks =>
    have hstarts : StartsBlank (c :: blanks ++ back) := by
      intro d hd
      obtain rfl := Option.some.inj hd
      exact hblanks c List.mem_cons_self
    have hbrace : '}' ∈ c :: blanks ++ back → '}' ∈ back := by
      intro hmem
      refine (List.mem_append.mp hmem).resolve_left fun hmem => ?_
      exact ne_of_isBlank (hblanks '}' hmem) (by decide) rfl
    obtain ⟨ps, hfront, hpieces, hother⟩ := exists_pieces_append hstarts hbrace h rfl
    exact ⟨ps, hfront, hpieces, by rw [hother, pieces_blanks back hblanks]⟩

/-! ### Places inside nothing -/

/-- Whether a place in a text is strictly inside no token and no text that is dropped. -/
structure Scan.Between (scan : Scan) (place : Nat) : Prop where
  tokens : ∀ t ∈ scan.tokens,
    ¬(t.position < place ∧ place < t.position + t.lexeme.spelling.length)
  dropped : ∀ d ∈ scan.diagnostics, ∀ piece, d.fault = .dropped piece →
    ¬(d.position < place ∧ place < d.position + piece.text.length)

/-- The places between the pieces behind a piece are places between all of them. -/
theorem Scan.Between.behind {piece : Piece} {ps : List Piece} {position finish place : Nat}
    (h : Scan.Between ⟨tokensFrom position (piece :: ps), droppedFrom position (piece :: ps), finish⟩
      place) :
    Scan.Between ⟨tokensFrom (position + piece.text.length) ps,
      droppedFrom (position + piece.text.length) ps, finish⟩ place := by
  cases piece with
  | blank c => exact h
  | lexeme l => exact ⟨fun t ht => h.tokens t (List.mem_cons_of_mem _ ht), h.dropped⟩
  | dropped d => exact ⟨h.tokens, fun e he => h.dropped e (List.mem_cons_of_mem _ he)⟩

/-- A place behind the start of the first piece is not before its end. -/
theorem Scan.Between.length_le {piece : Piece} {ps : List Piece} {position finish place : Nat}
    (h : Scan.Between ⟨tokensFrom position (piece :: ps), droppedFrom position (piece :: ps), finish⟩
      place) (hplace : position < place) : position + piece.text.length ≤ place := by
  cases piece with
  | blank c => exact hplace
  | lexeme l =>
    have hinside := h.tokens _ List.mem_cons_self
    exact Nat.le_of_not_lt fun hlt => hinside ⟨hplace, hlt⟩
  | dropped d =>
    have hinside := h.dropped _ List.mem_cons_self d rfl
    exact Nat.le_of_not_lt fun hlt => hinside ⟨hplace, hlt⟩

theorem reaches_of_between_from {cs front back : List Char} {position finish : Nat}
    (hcs : cs = front ++ back)
    (h : Scan.Between ⟨tokensFrom position (pieces cs), droppedFrom position (pieces cs), finish⟩
      (position + front.length)) : Reaches cs back := by
  induction hlength : cs.length using Nat.strong_induction_on generalizing cs front position with
  | _ n ih =>
    subst hlength
    rcases front with _ | ⟨c, front⟩
    · rw [hcs]
      exact .here back
    · obtain ⟨cs, rfl⟩ : ∃ tail, cs = c :: tail := ⟨_, hcs⟩
      rw [pieces] at h
      have hfits := h.length_le (by simp)
      have htext := text_append_nextPiece c cs
      have hprefix : (nextPiece c cs).1.text <+: c :: front :=
        List.prefix_of_prefix_length_le ⟨_, htext⟩ ⟨back, hcs.symm⟩ (Nat.le_of_add_le_add_left hfits)
      obtain ⟨others, hfront⟩ := hprefix
      rw [hcs, ← hfront, List.append_assoc] at htext
      have hrest := List.append_cancel_left htext
      have hbehind := h.behind
      rw [← hfront, List.length_append, ← Nat.add_assoc] at hbehind
      exact .behind (ih _ (Nat.lt_succ_of_le (length_nextPiece_le c cs)) hrest hbehind rfl)

/-- **A scan comes to every place that is inside no token and nothing that is dropped.** -/
theorem reaches_of_between {text : String} {place : Nat} (hplace : place ≤ text.length)
    (h : (Scan.ofText text).Between place) : Reaches text.toList (text.toList.drop place) := by
  have hlength : (text.toList.take place).length = place :=
    List.length_take_of_le (by rwa [String.length_toList])
  rw [← hlength, ← Nat.zero_add (List.length _)] at h
  exact reaches_of_between_from (List.take_append_drop place text.toList).symm h

/-! ### Blanks at a place -/

/-- A position in a text after a text of the given length is put in at a place. -/
def shifted (place length position : Nat) : Nat :=
  if place ≤ position then position + length else position

theorem shifted_lt_shifted {place length a b : Nat} (h : a < b) :
    shifted place length a < shifted place length b := by
  unfold shifted
  split <;> split <;> omega

/-- A text with another one put in at a place. -/
def putIn (text : String) (place : Nat) (more : String) : String :=
  .ofList (text.toList.take place ++ (more.toList ++ text.toList.drop place))

section Blanks

variable {position : Nat} {blanks : List Char} (ps : List Piece)

theorem tokensFrom_blanks :
    tokensFrom position (blanks.map Piece.blank ++ ps) = tokensFrom (position + blanks.length) ps := by
  induction blanks generalizing position with
  | nil => rfl
  | cons c blanks ih =>
    rw [List.length_cons, Nat.add_comm _ 1, ← Nat.add_assoc]
    exact ih

theorem droppedFrom_blanks :
    droppedFrom position (blanks.map Piece.blank ++ ps) =
      droppedFrom (position + blanks.length) ps := by
  induction blanks generalizing position with
  | nil => rfl
  | cons c blanks ih =>
    rw [List.length_cons, Nat.add_comm _ 1, ← Nat.add_assoc]
    exact ih

end Blanks

/-- What is before a place stays there. -/
theorem Token.moved_before {place length : Nat} {tokens : List Token}
    (h : ∀ t ∈ tokens, t.position < place) : tokens.map (Token.moved (shifted place length)) = tokens := by
  refine (List.map_congr_left fun t ht => ?_).trans (List.map_id _)
  rw [Token.moved, shifted, if_neg (Nat.not_le.mpr (h t ht))]
  rfl

/-- What is not before a place is moved by the length of what is put in there. -/
theorem Token.moved_behind {place length : Nat} {tokens : List Token}
    (h : ∀ t ∈ tokens, place ≤ t.position) :
    tokens.map (Token.moved (shifted place length)) = tokens.map (Token.moved (length + ·)) := by
  refine List.map_congr_left fun t ht => ?_
  rw [Token.moved, shifted, if_pos (h t ht), Nat.add_comm]
  rfl

theorem Diagnostic.moved_before {place length : Nat} {diagnostics : List Diagnostic}
    (h : ∀ d ∈ diagnostics, d.position < place) :
    diagnostics.map (Diagnostic.moved (shifted place length)) = diagnostics := by
  refine (List.map_congr_left fun d hd => ?_).trans (List.map_id _)
  rw [Diagnostic.moved, shifted, if_neg (Nat.not_le.mpr (h d hd))]
  rfl

theorem Diagnostic.moved_behind {place length : Nat} {diagnostics : List Diagnostic}
    (h : ∀ d ∈ diagnostics, place ≤ d.position) :
    diagnostics.map (Diagnostic.moved (shifted place length)) =
      diagnostics.map (Diagnostic.moved (length + ·)) := by
  refine List.map_congr_left fun d hd => ?_
  rw [Diagnostic.moved, shifted, if_pos (h d hd), Nat.add_comm]
  rfl

/-- A scan whose positions are moved. -/
def Scan.moved (f : Nat → Nat) (scan : Scan) : Scan :=
  ⟨scan.tokens.map (Token.moved f), scan.diagnostics.map (Diagnostic.moved f), f scan.finish⟩

/-- **Blanks at a place that a scan comes to move what stands behind the place**, and nothing else. -/
theorem Scan.ofText_putIn {text blanks : String} {place : Nat} (hplace : place ≤ text.length)
    (h : (Scan.ofText text).Between place) (hblanks : ∀ c ∈ blanks.toList, Text.isBlank c = true) :
    Scan.ofText (putIn text place blanks) =
      (Scan.ofText text).moved (shifted place blanks.length) := by
  have hreach := reaches_of_between hplace h
  have hsplit := List.take_append_drop place text.toList
  have hlength : (text.toList.take place).length = place :=
    List.length_take_of_le (by rwa [String.length_toList])
  nth_rewrite 1 [← hsplit] at hreach
  obtain ⟨ps, hfront, hpieces, hspaced⟩ := exists_pieces_blanks hreach hblanks
  rw [hsplit] at hpieces
  have hfinish : finishFrom 0 ps = place := by rw [finishFrom_eq, hfront, hlength, Nat.zero_add]
  have hfull := text_ne_nil_of_mem_pieces text.toList
  rw [hpieces] at hfull
  have hbefore : ∀ position ∈ places 0 ps, position < place := fun position hposition =>
    hfinish ▸ lt_of_mem_places (fun p hp => hfull p (List.mem_append_left _ hp)) hposition
  have hbehind : ∀ position ∈ places place (pieces (text.toList.drop place)), place ≤ position :=
    (placed (fun p hp => hfull p (List.mem_append_right _ hp)) place).le
  simp only [Scan.moved, Scan.ofText, putIn, String.toList_ofList, hspaced, hpieces, Scan.mk.injEq]
  refine ⟨?tokens, ?diagnostics, ?finish⟩
  case tokens =>
    rw [tokensFrom_append 0, tokensFrom_append 0, tokensFrom_blanks, hfinish, List.map_append,
      Token.moved_before, Token.moved_behind, ← tokensFrom_add, String.length_toList, Nat.add_comm]
    · exact fun t ht => hbehind _ (List.mem_append_right _ (List.mem_map_of_mem ht))
    · exact fun t ht => hbefore _ (List.mem_append_right _ (List.mem_map_of_mem ht))
  case diagnostics =>
    rw [droppedFrom_append 0, droppedFrom_append 0, droppedFrom_blanks, hfinish, List.map_append,
      Diagnostic.moved_before, Diagnostic.moved_behind, ← droppedFrom_add, String.length_toList,
      Nat.add_comm]
    · exact fun d hd => hbehind _ (List.mem_append_left _ (List.mem_map_of_mem hd))
    · exact fun d hd => hbefore _ (List.mem_append_left _ (List.mem_map_of_mem hd))
  case finish =>
    have htext : (blanks.toList.map Piece.blank).flatMap Piece.text = blanks.toList := by
      simp [List.flatMap_map, Piece.text]
    rw [← hpieces, finishFrom_eq, finishFrom_eq, flatMap_text_pieces, List.flatMap_append,
      List.flatMap_append, hfront, htext, flatMap_text_pieces, Nat.zero_add, Nat.zero_add, shifted,
      if_pos (by rwa [String.length_toList])]
    simp only [List.length_append, List.length_take, List.length_drop, String.length_toList]
    omega

end Formulary
