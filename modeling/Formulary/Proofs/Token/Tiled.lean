/-
# Every character of a text

A text is made of blanks, tokens and text that is dropped, one behind the other and nothing between them.
Each token stands where its spelling starts, and each piece that is dropped has one diagnostic there. That
is the relation `Tiled`, which the scan of every text is in (`tiled_pieces`). Only what is no token is
dropped, and always the whole run (`Dropped.Fits`).

Reading the tokens one by one (`Item.ofText`) gives the same tokens and diagnostics and one mark for the
end, and never stands still: the step is `nextItem_eq`, the run `readItems_eq`.

Key definitions: `IsRun`, `Dropped.Fits`, `Cut`, `Tiled`.
Key theorems: `cut_nextPiece`, `Cut.fits`, `tiled_pieces`, `readItems_eq`, `Item.ofText_tiled`.
-/
import Formulary.Proofs.Token.Append
import Formulary.Token.Stream

namespace Formulary

/-! ### What is dropped -/

/-- Whether a text is one run in front of another text: it starts with a character of one class, goes on
with characters of another, and does so for as long as it can. -/
structure IsRun (first next : Char → Bool) (run rest : List Char) : Prop where
  starts : ∃ c ∈ run.head?, first c = true
  all : ∀ c ∈ run, next c = true
  ends : ∀ c ∈ rest.head?, next c = false

theorem isRun_takeWhile {first next : Char → Bool} {c : Char} (hfirst : first c = true)
    (hnext : next c = true) (cs : List Char) :
    IsRun first next (c :: cs.takeWhile next) (cs.dropWhile next) where
  starts := ⟨c, rfl, hfirst⟩
  all := by
    intro d hd
    rcases List.mem_cons.mp hd with rfl | hd
    · exact hnext
    · exact List.mem_takeWhile_imp hd
  ends := by
    intro d hd
    have hnot := List.head?_dropWhile_not next cs
    rw [Option.mem_def.mp hd] at hnot
    simpa using hnot

/-- What a piece that is dropped is, in front of the rest of the text. -/
def Dropped.Fits (rest : List Char) : Dropped → Prop
  | malformedNumber run => IsRun Text.isDigit continuesNumber run rest ∧ Numeral.ofText? run = none
  | numberOutOfRange run => IsRun Text.isDigit continuesNumber run rest ∧
      ∃ numeral, Numeral.ofText? run = some numeral ∧ numeral.magnitude? = none
  | unrecognized run =>
    (IsRun startsWord continuesWord run rest ∨ IsRun isSymbol isSymbol run rest) ∧
      isFunctionName (String.ofList run) = false ∧ isOperator (String.ofList run) = false
  | unexpected c => Text.isBlank c = false ∧ c ∉ ['(', ')', ',', '{'] ∧ Text.isDigit c = false ∧
      startsWord c = false ∧ isSymbol c = false
  | loneBrace => '}' ∉ rest

theorem Dropped.text_ne_nil_of_fits {rest : List Char} {d : Dropped} (h : d.Fits rest) : d.text ≠ [] := by
  have hrun : ∀ {first next : Char → Bool} {run : List Char}, IsRun first next run rest → run ≠ [] := by
    rintro first next run hrun rfl
    obtain ⟨c, hc, -⟩ := hrun.starts
    cases hc
  cases d with
  | malformedNumber run => exact hrun h.1
  | numberOutOfRange run => exact hrun h.1
  | unrecognized run => exact h.1.elim hrun hrun
  | unexpected c => exact List.cons_ne_nil _ _
  | loneBrace => exact List.cons_ne_nil _ _

theorem fits_numberPiece {run rest : List Char} {d : Dropped}
    (hrun : IsRun Text.isDigit continuesNumber run rest) (h : numberPiece run = .dropped d) :
    d.Fits rest := by
  unfold numberPiece at h
  split at h
  · next hnone =>
    cases h
    exact ⟨hrun, hnone⟩
  · next numeral hnumeral =>
    cases hnumber : numeral.toNumber? with
    | none =>
      rw [hnumber] at h
      cases h
      exact ⟨hrun, numeral, hnumeral, Option.map_eq_none_iff.mp hnumber⟩
    | some number =>
      rw [hnumber] at h
      cases h

theorem fits_wordPiece {run rest : List Char} {d : Dropped}
    (hrun : IsRun startsWord continuesWord run rest ∨ IsRun isSymbol isSymbol run rest)
    (h : wordPiece run = .dropped d) : d.Fits rest := by
  unfold wordPiece at h
  split at h
  · cases h
  split at h
  · cases h
  · next hfunction hoperator =>
    cases h
    exact ⟨hrun, by simpa using hfunction, by simpa using hoperator⟩

/-! ### The first piece -/

/-- What the first piece of the text `c :: cs` is, in front of the rest of the text. -/
inductive Cut (c : Char) (cs : List Char) : Piece → List Char → Prop
  | blank (h : Text.isBlank c = true) : Cut c cs (.blank c) cs
  | opening (h : c = '(') : Cut c cs (.lexeme .opening) cs
  | closing (h : c = ')') : Cut c cs (.lexeme .closing) cs
  | comma (h : c = ',') : Cut c cs (.lexeme .comma) cs
  | reference {name : String} {rest : List Char} (h : c = '{') (hname : '}' ∉ name.toList)
    (hcs : name.toList ++ '}' :: rest = cs) : Cut c cs (.lexeme (.reference name)) rest
  | loneBrace (h : c = '{') (hbrace : '}' ∉ cs) : Cut c cs (.dropped .loneBrace) cs
  | number {run rest : List Char} (h : IsRun Text.isDigit continuesNumber run rest) :
    Cut c cs (numberPiece run) rest
  | word {run rest : List Char}
    (h : IsRun startsWord continuesWord run rest ∨ IsRun isSymbol isSymbol run rest) :
    Cut c cs (wordPiece run) rest
  | unexpected (h : (Dropped.unexpected c).Fits cs) : Cut c cs (.dropped (.unexpected c)) cs

/-- **The first piece of a text is one of these**; a number, a word and an operator are whole runs. -/
theorem cut_nextPiece (c : Char) (cs : List Char) :
    Cut c cs (nextPiece c cs).1 (nextPiece c cs).2 := by
  unfold nextPiece
  split
  · next hblank => exact .blank hblank
  split
  · next hopening => exact .opening hopening
  split
  · next hclosing => exact .closing hclosing
  split
  · next hcomma => exact .comma hcomma
  split
  · next hbrace =>
    split
    · next hdrop =>
      exact .loneBrace hbrace fun hmem => by simpa using List.dropWhile_eq_nil_iff.mp hdrop '}' hmem
    · next hdrop =>
      refine .reference hbrace (fun hmem => ?_) ?_
      · rw [String.toList_ofList] at hmem
        simpa using List.mem_takeWhile_imp hmem
      · rw [String.toList_ofList]
        exact takeWhile_append_brace hdrop
  split
  · next hdigit =>
    exact .number (isRun_takeWhile hdigit (by rw [continuesNumber, hdigit, Bool.true_or]) cs)
  split
  · next hword =>
    have hnext : continuesWord c = true := by
      rw [startsWord, Bool.or_eq_true] at hword
      rcases hword with hletter | hline
      · simp [continuesWord, hletter]
      · simp [continuesWord, of_decide_eq_true hline]
    exact .word (.inl (isRun_takeWhile hword hnext cs))
  split
  · next hsymbol => exact .word (.inr (isRun_takeWhile hsymbol hsymbol cs))
  · next hblank hopening hclosing hcomma hbrace hdigit hword hsymbol =>
    refine .unexpected ?_
    simp only [Dropped.Fits, List.mem_cons, List.not_mem_nil, or_false, not_or]
    exact ⟨by simpa using hblank, ⟨hopening, hclosing, hcomma, hbrace⟩, by simpa using hdigit,
      by simpa using hword, by simpa using hsymbol⟩

/-- **Only what is no token is dropped**, and the whole run of it. -/
theorem Cut.fits {c : Char} {cs rest : List Char} {piece : Piece} {d : Dropped}
    (h : Cut c cs piece rest) (hpiece : piece = .dropped d) : d.Fits rest := by
  cases h with
  | loneBrace _ hbrace =>
    cases hpiece
    exact hbrace
  | number hrun => exact fits_numberPiece hrun hpiece
  | word hrun => exact fits_wordPiece hrun hpiece
  | unexpected hfits =>
    cases hpiece
    exact hfits
  | _ => cases hpiece

theorem ne_blank_of_numberPiece (run : List Char) (b : Char) : numberPiece run ≠ .blank b := by
  unfold numberPiece
  split
  · simp
  · next numeral _ => cases hnumber : numeral.toNumber? <;> simp [numeralPiece]

theorem ne_blank_of_wordPiece (run : List Char) (b : Char) : wordPiece run ≠ .blank b := by
  unfold wordPiece
  split_ifs <;> simp

theorem Cut.isBlank {c b : Char} {cs rest : List Char} {piece : Piece} (h : Cut c cs piece rest)
    (hpiece : piece = .blank b) : Text.isBlank b = true := by
  cases h with
  | blank hblank =>
    cases hpiece
    exact hblank
  | number hrun => exact (ne_blank_of_numberPiece _ _ hpiece).elim
  | word hrun => exact (ne_blank_of_wordPiece _ _ hpiece).elim
  | _ => cases hpiece

/-! ### Tokens and diagnostics cover a text -/

/-- Whether a text that starts at a position is made of blanks, of the given tokens and of what the given
diagnostics say is dropped, each where it says. -/
inductive Tiled : Nat → List Char → List Token → List Diagnostic → Prop
  | finish (position : Nat) : Tiled position [] [] []
  | blank {position : Nat} {c : Char} {cs : List Char} {tokens : List Token}
    {diagnostics : List Diagnostic} (hblank : Text.isBlank c = true)
    (h : Tiled (position + 1) cs tokens diagnostics) : Tiled position (c :: cs) tokens diagnostics
  | token {position : Nat} {l : Lexeme} {cs : List Char} {tokens : List Token}
    {diagnostics : List Diagnostic} (hne : l.spelling ≠ [])
    (h : Tiled (position + l.spelling.length) cs tokens diagnostics) :
    Tiled position (l.spelling ++ cs) (⟨l, position⟩ :: tokens) diagnostics
  | dropped {position : Nat} {d : Dropped} {cs : List Char} {tokens : List Token}
    {diagnostics : List Diagnostic} (hfits : d.Fits cs)
    (h : Tiled (position + d.text.length) cs tokens diagnostics) :
    Tiled position (d.text ++ cs) tokens (⟨.dropped d, position⟩ :: diagnostics)

/-- **The scan of a text accounts for every character.** -/
theorem tiled_pieces (position : Nat) (cs : List Char) :
    Tiled position cs (tokensFrom position (pieces cs)) (droppedFrom position (pieces cs)) := by
  fun_induction pieces cs generalizing position with
  | case1 => exact .finish position
  | case2 c cs ih =>
    have htext := text_append_nextPiece c cs
    have hne : (nextPiece c cs).1.text ≠ [] :=
      text_ne_nil_of_mem_pieces (c :: cs) _ (by rw [pieces]; exact List.mem_cons_self)
    rw [← htext]
    cases hpiece : (nextPiece c cs).1 with
    | blank b => exact .blank ((cut_nextPiece c cs).isBlank hpiece) (ih _)
    | lexeme l =>
      rw [hpiece] at hne
      exact .token hne (ih _)
    | dropped d => exact .dropped ((cut_nextPiece c cs).fits hpiece) (ih _)

namespace Tiled

variable {position : Nat} {cs : List Char} {tokens : List Token} {diagnostics : List Diagnostic}

theorem le_of_mem (h : Tiled position cs tokens diagnostics) :
    ∀ d ∈ diagnostics, position ≤ d.position := by
  induction h with
  | finish position => exact fun _ hd => (List.not_mem_nil hd).elim
  | blank _ _ ih => exact fun d hd => (Nat.le_add_right _ _).trans (ih d hd)
  | token _ _ ih => exact fun d hd => (Nat.le_add_right _ _).trans (ih d hd)
  | dropped _ _ ih =>
    intro d hd
    rcases List.mem_cons.mp hd with rfl | hd
    · exact Nat.le_refl _
    · exact (Nat.le_add_right _ _).trans (ih d hd)

theorem fault_of_mem (h : Tiled position cs tokens diagnostics) :
    ∀ d ∈ diagnostics, ∃ piece, d.fault = .dropped piece := by
  induction h with
  | finish position => exact fun _ hd => (List.not_mem_nil hd).elim
  | blank _ _ ih => exact ih
  | token _ _ ih => exact ih
  | @dropped position piece cs tokens diagnostics hfits h ih =>
    intro d hd
    rcases List.mem_cons.mp hd with rfl | hd
    · exact ⟨piece, rfl⟩
    · exact ih d hd

/-- Diagnostics are in the order of the text, and no two of them are at one place. -/
theorem pairwise_diagnostics (h : Tiled position cs tokens diagnostics) :
    diagnostics.Pairwise fun d e => d.position < e.position := by
  induction h with
  | finish position => exact .nil
  | blank _ _ ih => exact ih
  | token _ _ ih => exact ih
  | @dropped position d cs tokens diagnostics hfits h ih =>
    refine List.pairwise_cons.mpr ⟨fun e he => ?_, ih⟩
    have hlength : 0 < d.text.length := List.length_pos_of_ne_nil (Dropped.text_ne_nil_of_fits hfits)
    exact (Nat.lt_add_of_pos_right hlength).trans_le (h.le_of_mem e he)

end Tiled

/-! ### Reading tokens one by one -/

/-- **A step takes the next token of the scan**, and notes what is dropped before it; or it comes to the
end of the text. -/
theorem nextItem_eq {text rest : List Char} {position : Nat}
    (hposition : text.length = position + rest.length) (dropped : List Diagnostic) :
    (nextItem text rest dropped =
        (.finish text.length, [], dropped ++ droppedFrom position (pieces rest)) ∧
      tokensFrom position (pieces rest) = []) ∨
    ∃ t later noted next, nextItem text rest dropped = (.token t, later, dropped ++ noted) ∧
      text.length = next + later.length ∧
      tokensFrom position (pieces rest) = t :: tokensFrom next (pieces later) ∧
      droppedFrom position (pieces rest) = noted ++ droppedFrom next (pieces later) := by
  fun_induction nextItem text rest dropped generalizing position with
  | case1 dropped =>
    refine .inl ⟨?_, by rw [pieces, tokensFrom]⟩
    rw [pieces, droppedFrom, List.append_nil]
    rfl
  | case2 c cs dropped b hpiece ih =>
    have hlength := congrArg List.length (text_append_nextPiece c cs)
    rw [hpiece, List.length_append] at hlength
    rw [pieces, hpiece]
    exact ih (by rw [hposition, ← hlength, ← Nat.add_assoc])
  | case3 c cs dropped l hpiece =>
    have hlength := congrArg List.length (text_append_nextPiece c cs)
    rw [hpiece, List.length_append] at hlength
    have hplace : positionOf text (c :: cs) = position := by
      rw [positionOf, hposition, Nat.add_sub_cancel]
    refine .inr ⟨_, _, [], position + l.spelling.length, by rw [List.append_nil], ?_, ?_, ?_⟩
    · rw [hposition, ← hlength, ← Nat.add_assoc]
      rfl
    · rw [hplace, pieces, hpiece, tokensFrom]
    · rw [pieces, hpiece]
      rfl
  | case4 c cs dropped d hpiece ih =>
    have hlength := congrArg List.length (text_append_nextPiece c cs)
    rw [hpiece, List.length_append] at hlength
    have hplace : positionOf text (c :: cs) = position := by
      rw [positionOf, hposition, Nat.add_sub_cancel]
    have hnext : text.length = position + d.text.length + (nextPiece c cs).2.length := by
      rw [hposition, ← hlength, ← Nat.add_assoc]
      rfl
    rw [pieces, hpiece, droppedFrom]
    rw [hplace] at ih ⊢
    obtain ⟨hitem, htokens⟩ | ⟨t, later, noted, next, hitem, hlater, htokens, hdropped⟩ := ih hnext
    · refine .inl ⟨?_, htokens⟩
      rw [hitem, List.append_assoc]
      rfl
    · refine .inr ⟨t, later, ⟨.dropped d, position⟩ :: noted, next, ?_, hlater, htokens, ?_⟩
      · rw [hitem, List.append_assoc]
        rfl
      · rw [hdropped]
        rfl

/-- **Reading tokens one by one gives the tokens of the scan**, what it drops, and one mark for the end; it
never stands still. -/
theorem readItems_eq {text rest : List Char} {position : Nat}
    (hposition : text.length = position + rest.length) (dropped : List Diagnostic) :
    readItems text rest dropped =
      .ok ((tokensFrom position (pieces rest)).map .token ++ [.finish text.length],
        dropped ++ droppedFrom position (pieces rest)) := by
  induction hlength : rest.length using Nat.strong_induction_on generalizing rest position dropped with
  | _ n ih =>
    subst hlength
    rw [readItems.eq_def]
    obtain ⟨hitem, htokens⟩ | ⟨t, later, noted, next, hitem, hlater, htokens, hdropped⟩ :=
      nextItem_eq hposition dropped
    · rw [hitem, htokens]
      rfl
    · have hlt := length_nextItem_lt _ _ hitem
      have hmoves : positionOf text later ≠ positionOf text rest := by
        unfold positionOf
        omega
      rw [hitem]
      simp only [if_neg hmoves]
      rw [ih _ hlt hlater _ rfl, htokens, hdropped, List.append_assoc]
      rfl

/-! ### The whole account -/

/-- The text of a piece in quotation marks. -/
def Dropped.quoted (d : Dropped) : String :=
  "'" ++ String.ofList d.text ++ "'"

theorem Dropped.append_quoted {cause start run : String} (h : cause ++ " " ++ "'" = start) :
    start ++ run ++ "'" = cause ++ " " ++ ("'" ++ run ++ "'") := by
  rw [← h, ← String.append_assoc, ← String.append_assoc]

/-- The message for a piece that is dropped quotes the piece, unless that is an opening brace. -/
theorem Dropped.exists_message_eq : ∀ {d : Dropped}, d ≠ .loneBrace →
    ∃ cause, d.message = cause ++ " " ++ d.quoted
  | malformedNumber _, _ => ⟨"Malformed number", append_quoted (by decide)⟩
  | numberOutOfRange _, _ => ⟨"Number out of range", append_quoted (by decide)⟩
  | unrecognized _, _ => ⟨"Unrecognized input", append_quoted (by decide)⟩
  | unexpected _, _ => ⟨"Unexpected character", append_quoted (by decide)⟩
  | loneBrace, h => (h rfl).elim

/-- **Reading a text one token after the other accounts for every character**, whatever the text is. It
ends with one mark behind the last character and never stands still. The text is the blanks, the tokens and
the pieces that are dropped, each where its token or its diagnostic says. Each diagnostic quotes its piece,
but for an opening brace that is never closed, which is only said to be that. -/
theorem Item.ofText_tiled (text : String) : ∃ tokens diagnostics,
    Item.ofText text = .ok (tokens.map .token ++ [.finish text.length], diagnostics) ∧
    Scan.ofText text = ⟨tokens, diagnostics, text.length⟩ ∧
    Tiled 0 text.toList tokens diagnostics ∧
    (tokens.Pairwise fun t u => t.position < u.position) ∧
    (diagnostics.Pairwise fun d e => d.position < e.position) ∧
    ∀ d ∈ diagnostics, ∃ piece, d.fault = .dropped piece ∧
      (piece ≠ .loneBrace → ∃ cause, d.message = cause ++ " " ++ piece.quoted) ∧
      (piece = .loneBrace → d.message = "Unterminated attribute reference") := by
  have htiled := tiled_pieces 0 text.toList
  refine ⟨_, _, ?items, ?scan, htiled, ?tokens, htiled.pairwise_diagnostics, ?messages⟩
  case items =>
    have hitems := @readItems_eq text.toList text.toList 0 (Nat.zero_add _).symm []
    rwa [String.length_toList] at hitems
  case scan =>
    rw [Scan.ofText, finishFrom_eq, flatMap_text_pieces, String.length_toList, Nat.zero_add]
  case tokens => exact List.pairwise_map.mp (pairwise_tokens text)
  case messages =>
    intro d hd
    obtain ⟨piece, hpiece⟩ := htiled.fault_of_mem d hd
    refine ⟨piece, hpiece, fun hbrace => ?_, ?_⟩
    · rw [Diagnostic.message, hpiece]
      exact Dropped.exists_message_eq hbrace
    · rintro rfl
      rw [Diagnostic.message, hpiece]
      rfl

/-- An opening brace that is never closed does not occur in its message. -/
theorem Scan.loneBrace_not_quoted : ¬ ∀ d ∈ (Scan.ofText "\x7b").diagnostics, ∀ piece,
    d.fault = .dropped piece → piece.text <:+: d.message.toList := by
  have hpieces : pieces "\x7b".toList = [.dropped .loneBrace] := by
    have hbrace : nextPiece '{' [] = (.dropped .loneBrace, []) := by decide +kernel
    change pieces ['{'] = _
    rw [pieces, hbrace, pieces]
  rw [Scan.ofText, hpieces]
  intro h
  exact absurd (h _ List.mem_cons_self .loneBrace rfl) (by decide)

end Formulary
