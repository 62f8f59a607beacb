/-
# Laid out pieces scan back

A list of pieces is laid out as the texts of its pieces, one after the other. The pieces of that text
are the same list again if every lexeme is written as a scan would have it and every word, symbol and
number stands at the end or in front of a blank, a parenthesis or a comma (`pieces_layout`). In the
other direction, what a scan gives is known: names of functions, operators that are no such names,
references without a closing brace, and plain numbers (`known_of_mem_tokens`).

Key definitions: `Lexeme.Known`, `Lexeme.Canonical`, `Spaced`.
Key theorems: `pieces_layout`, `known_of_mem_tokens`, `scan_layout`.
-/
import Formulary.Formula
import Formulary.Proofs.Number.Text

namespace Formulary

/-! ### Lexemes that a scan can give -/

namespace Lexeme

/-- What holds of every lexeme that a scan gives. -/
def Known : Lexeme → Prop
  | function name => isFunctionName name = true
  | operator symbol => isOperator symbol = true ∧ isFunctionName symbol = false
  | reference name => '}' ∉ name.toList
  | value _ number => number.Plain
  | opening | closing | comma => True

/-- The lexeme of a number as a canonical text has it. -/
def ofNumber (number : Number) : Lexeme :=
  value (String.ofList number.text) number.settled

/-- What holds of every lexeme of a canonical text. -/
def Canonical : Lexeme → Prop
  | value literal number => ∃ n : Number, n.Plain ∧ value literal number = ofNumber n
  | lexeme => lexeme.Known

/-- Whether a lexeme is a run of characters, which a character of its class behind it prolongs. -/
def isRun : Lexeme → Bool
  | function _ | operator _ | value _ _ => true
  | reference _ | opening | closing | comma => false

end Lexeme

/-- Texts that prolong no run: they are empty or start with a blank, a parenthesis or a comma. -/
def EndsRun (cs : List Char) : Prop := ∀ c ∈ cs.head?, c ∈ [' ', '(', ')', ',']

/-- A text that does not start with a character of a class has no run of the class in front. -/
theorem takeWhile_of_head? {p : Char → Bool} {rest : List Char} (h : ∀ c ∈ rest.head?, p c = false) :
    rest.takeWhile p = [] ∧ rest.dropWhile p = rest := by
  cases rest with
  | nil => exact ⟨rfl, rfl⟩
  | cons c rest =>
    have hc := h c rfl
    exact ⟨List.takeWhile_cons_of_neg (by simp [hc]), List.dropWhile_cons_of_neg (by simp [hc])⟩

/-- A run of a class ends where a character of another class comes. -/
theorem takeWhile_append_of_head? {p : Char → Bool} {cs rest : List Char} (hcs : ∀ c ∈ cs, p c = true)
    (h : ∀ c ∈ rest.head?, p c = false) :
    (cs ++ rest).takeWhile p = cs ∧ (cs ++ rest).dropWhile p = rest := by
  obtain ⟨htake, hdrop⟩ := takeWhile_of_head? h
  rw [List.takeWhile_append_of_pos hcs, List.dropWhile_append_of_pos hcs, htake, hdrop]
  exact ⟨List.append_nil cs, rfl⟩

/-- A class without a blank, a parenthesis and a comma takes nothing of a text that ends runs. -/
theorem takeWhile_of_endsRun {p : Char → Bool} {rest : List Char} (hrest : EndsRun rest)
    (hp : ∀ c ∈ [' ', '(', ')', ','], p c = false) :
    rest.takeWhile p = [] ∧ rest.dropWhile p = rest :=
  takeWhile_of_head? fun c hc => hp c (hrest c hc)

theorem takeWhile_run {p : Char → Bool} {cs rest : List Char} (hcs : ∀ c ∈ cs, p c = true)
    (hrest : EndsRun rest) (hp : ∀ c ∈ [' ', '(', ')', ','], p c = false) :
    (cs ++ rest).takeWhile p = cs ∧ (cs ++ rest).dropWhile p = rest :=
  takeWhile_append_of_head? hcs fun c hc => hp c (hrest c hc)

theorem ends_of_all {p : Char → Bool} (h : [' ', '(', ')', ','].all (fun c => !p c) = true) :
    ∀ c ∈ [' ', '(', ')', ','], p c = false := by
  simpa using h

theorem ends_number : ∀ c ∈ [' ', '(', ')', ','], continuesNumber c = false :=
  ends_of_all (by decide)

theorem ends_word : ∀ c ∈ [' ', '(', ')', ','], continuesWord c = false :=
  ends_of_all (by decide)

theorem ends_symbol : ∀ c ∈ [' ', '(', ')', ','], isSymbol c = false :=
  ends_of_all (by decide)

/-! ### Words and symbols -/

/-- Whether a text is one run of word characters or of operator symbols. -/
def isWordRun : List Char → Bool
  | [] => false
  | c :: cs =>
    !Text.isBlank c && !(['(', ')', ',', '{'].contains c) && !Text.isDigit c &&
      if startsWord c then cs.all continuesWord else isSymbol c && cs.all isSymbol

theorem isWordRun_functions : ∀ s ∈ Signature.all, isWordRun s.name.toList = true := by
  decide +kernel

theorem isWordRun_operators :
    ∀ f ∈ Operator.families, ∀ symbol ∈ f.symbols, isWordRun symbol.toList = true := by
  decide +kernel

theorem isWordRun_of_isFunctionName {name : String} (h : isFunctionName name = true) :
    isWordRun name.toList = true := by
  obtain ⟨s, hs⟩ := Option.isSome_iff_exists.mp h
  have hname := List.find?_some hs
  rw [← of_decide_eq_true hname]
  exact isWordRun_functions s (List.mem_of_find?_eq_some hs)

theorem isWordRun_of_isOperator {symbol : String} (h : isOperator symbol = true) :
    isWordRun symbol.toList = true := by
  obtain ⟨f, hf⟩ := Option.isSome_iff_exists.mp h
  have hmem := List.find?_some hf
  exact isWordRun_operators f (List.mem_of_find?_eq_some hf) symbol
    (List.contains_iff_mem.mp hmem)

/-- A run of word characters or symbols is looked up as a whole. -/
theorem nextPiece_word {c : Char} {cs rest : List Char} (h : isWordRun (c :: cs) = true)
    (hrest : EndsRun rest) : nextPiece c (cs ++ rest) = (wordPiece (c :: cs), rest) := by
  simp only [isWordRun, Bool.and_eq_true, Bool.not_eq_true', List.contains_cons, List.contains_nil,
    Bool.or_false, Bool.or_eq_false_iff, beq_eq_false_iff_ne] at h
  obtain ⟨⟨⟨hblank, hopening, hclosing, hcomma, hbrace⟩, hdigit⟩, hrun⟩ := h
  unfold nextPiece
  rw [if_neg (by simp [hblank]), if_neg hopening, if_neg hclosing, if_neg hcomma, if_neg hbrace,
    if_neg (by simp [hdigit])]
  by_cases hword : startsWord c = true
  · rw [if_pos hword] at hrun ⊢
    have hsplit := takeWhile_run (List.all_eq_true.mp hrun) hrest ends_word
    rw [hsplit.1, hsplit.2]
  · rw [if_neg hword, Bool.and_eq_true] at hrun
    have hsplit := takeWhile_run (List.all_eq_true.mp hrun.2) hrest ends_symbol
    rw [if_neg hword, if_pos hrun.1, hsplit.1, hsplit.2]

/-! ### The other lexemes -/

theorem ne_of_text_isDigit {c d : Char} (h : c.isDigit = true)
    (hd : d ∈ ['(', ')', ',', '{']) : c ≠ d := by
  refine ne_of_isDigit h ?_
  simp only [List.mem_cons, List.not_mem_nil, or_false] at hd
  rcases hd with rfl | rfl | rfl | rfl <;> rfl

/-- A run of digits and points is a number. -/
theorem nextPiece_number {c : Char} {cs rest : List Char} (hc : c.isDigit = true)
    (hcs : ∀ d ∈ cs, continuesNumber d = true) (hrest : EndsRun rest) :
    nextPiece c (cs ++ rest) = (numberPiece (c :: cs), rest) := by
  have hsplit := takeWhile_run hcs hrest ends_number
  have hblank := isBlank_of_isDigit hc
  unfold nextPiece
  rw [if_neg (by simp [hblank]), if_neg (ne_of_text_isDigit hc (by simp)),
    if_neg (ne_of_text_isDigit hc (by simp)), if_neg (ne_of_text_isDigit hc (by simp)),
    if_neg (ne_of_text_isDigit hc (by simp)), if_pos (text_isDigit_of_isDigit hc), hsplit.1, hsplit.2]

/-- A name in braces is a reference. -/
theorem nextPiece_reference {name : String} (h : '}' ∉ name.toList) (rest : List Char) :
    nextPiece '{' (name.toList ++ '}' :: rest) = (.lexeme (.reference name), rest) := by
  have hname : ∀ c ∈ name.toList, decide (c ≠ '}') = true := by
    intro c hc
    rw [decide_eq_true_eq]
    rintro rfl
    exact h hc
  have htake : (name.toList ++ '}' :: rest).takeWhile (· ≠ '}') = name.toList := by
    rw [List.takeWhile_append_of_pos hname, List.takeWhile_cons_of_neg (by simp), List.append_nil]
  have hdrop : (name.toList ++ '}' :: rest).dropWhile (· ≠ '}') = '}' :: rest := by
    rw [List.dropWhile_append_of_pos hname, List.dropWhile_cons_of_neg (by simp)]
  have hbrace : Text.isBlank '{' = false := by decide
  unfold nextPiece
  rw [if_neg (by simp [hbrace]), if_neg (by decide), if_neg (by decide), if_neg (by decide),
    if_pos rfl, htake, hdrop, String.ofList_toList]

/-- The text of a canonical lexeme scans back, if no run is prolonged. -/
theorem pieces_lexeme {l : Lexeme} (h : l.Canonical) {rest : List Char}
    (hrest : l.isRun = true → EndsRun rest) :
    pieces (l.spelling ++ rest) = .lexeme l :: pieces rest := by
  cases l with
  | function name =>
    have hname : isFunctionName name = true := h
    have hrun := isWordRun_of_isFunctionName hname
    obtain ⟨c, cs, hcs⟩ := List.exists_cons_of_ne_nil (l := name.toList) (by
      intro hnil
      rw [hnil] at hrun
      cases hrun)
    rw [hcs] at hrun
    have hpiece : wordPiece (c :: cs) = .lexeme (.function name) := by
      rw [← hcs, wordPiece, String.ofList_toList, if_pos hname]
    rw [Lexeme.spelling, hcs, List.cons_append, pieces, nextPiece_word hrun (hrest rfl), hpiece]
  | operator symbol =>
    obtain ⟨hoperator, hfunction⟩ : isOperator symbol = true ∧ isFunctionName symbol = false := h
    have hrun := isWordRun_of_isOperator hoperator
    obtain ⟨c, cs, hcs⟩ := List.exists_cons_of_ne_nil (l := symbol.toList) (by
      intro hnil
      rw [hnil] at hrun
      cases hrun)
    rw [hcs] at hrun
    have hpiece : wordPiece (c :: cs) = .lexeme (.operator symbol) := by
      rw [← hcs, wordPiece, String.ofList_toList, if_neg (by simp [hfunction]), if_pos hoperator]
    rw [Lexeme.spelling, hcs, List.cons_append, pieces, nextPiece_word hrun (hrest rfl), hpiece]
  | reference name =>
    rw [Lexeme.spelling, List.cons_append, List.cons_append, List.append_assoc, List.cons_append,
      List.nil_append, pieces, nextPiece_reference h]
  | value literal number =>
    obtain ⟨n, hn, hvalue⟩ := h
    obtain ⟨d, ds, htext, hd, hds⟩ := Number.text_shape hn
    have hpiece := Number.numberPiece_text hn
    rw [hvalue, Lexeme.ofNumber, Lexeme.spelling, String.toList_ofList]
    rw [htext] at hpiece ⊢
    rw [List.cons_append, pieces, nextPiece_number hd hds (hrest rfl), hpiece]
  | opening =>
    rw [Lexeme.spelling, List.singleton_append, pieces]
    rfl
  | closing =>
    rw [Lexeme.spelling, List.singleton_append, pieces]
    rfl
  | comma =>
    rw [Lexeme.spelling, List.singleton_append, pieces]
    rfl

/-! ### Lists of pieces -/

/-- Whether a piece in a layout ends a run before it. -/
def Piece.separates : Piece → Bool
  | blank _ | lexeme .opening | lexeme .closing | lexeme .comma => true
  | _ => false

/-- Pieces that are laid out as a canonical text is: single spaces, and canonical lexemes of which no
run is prolonged. -/
def Spaced : List Piece → Prop
  | [] => True
  | .blank c :: rest => c = ' ' ∧ Spaced rest
  | .lexeme l :: rest =>
    l.Canonical ∧ (l.isRun = true → ∀ p ∈ rest.head?, p.separates = true) ∧ Spaced rest
  | .dropped _ :: _ => False

theorem endsRun_of_separates {p : Piece} {ps : List Piece} (hspaced : Spaced (p :: ps))
    (h : p.separates = true) : EndsRun ((p :: ps).flatMap Piece.text) := by
  intro c hc
  cases p with
  | blank b =>
    obtain ⟨rfl, -⟩ := hspaced
    obtain rfl := Option.some.inj hc
    simp
  | lexeme l =>
    cases l with
    | opening => obtain rfl := Option.some.inj hc; simp
    | closing => obtain rfl := Option.some.inj hc; simp
    | comma => obtain rfl := Option.some.inj hc; simp
    | _ => cases h
  | dropped d => cases h

/-- **A layout scans back** into the pieces that were laid out. -/
theorem pieces_layout : ∀ {ps : List Piece}, Spaced ps → pieces (ps.flatMap Piece.text) = ps
  | [], _ => by simp [pieces]
  | .blank c :: rest, h => by
    obtain ⟨rfl, hrest⟩ := h
    have hblank : nextPiece ' ' (rest.flatMap Piece.text) =
        (.blank ' ', rest.flatMap Piece.text) := rfl
    rw [List.flatMap_cons, Piece.text, List.singleton_append, pieces, hblank, pieces_layout hrest]
  | .lexeme l :: rest, h => by
    obtain ⟨hl, hseparated, hrest⟩ := h
    have hends (hrun : l.isRun = true) : EndsRun (rest.flatMap Piece.text) := by
      cases rest with
      | nil => intro c hc; cases hc
      | cons p ps => exact endsRun_of_separates hrest (hseparated hrun p rfl)
    rw [List.flatMap_cons, Piece.text, pieces_lexeme hl hends, pieces_layout hrest]
  | .dropped _ :: _, h => h.elim

/-- A layout is prolonged by one that is empty or starts with a separator. -/
theorem Spaced.append {qs : List Piece} (hq : Spaced qs)
    (hhead : ∀ p ∈ qs.head?, p.separates = true) :
    ∀ {ps : List Piece}, Spaced ps → Spaced (ps ++ qs)
  | [], _ => hq
  | .blank _ :: _, h => ⟨h.1, Spaced.append hq hhead h.2⟩
  | .lexeme l :: rest, h => by
    refine ⟨h.1, fun hrun p hp => ?_, Spaced.append hq hhead h.2.2⟩
    cases rest with
    | nil => exact hhead p hp
    | cons r rest => exact h.2.1 hrun p hp
  | .dropped _ :: _, h => h.elim

/-! ### The scan of a layout -/

/-- The lexeme of a piece that is one. -/
def Piece.lexeme? : Piece → Option Lexeme
  | lexeme l => some l
  | blank _ | dropped _ => none

theorem lexemes_tokensFrom : ∀ (position : Nat) (ps : List Piece),
    (tokensFrom position ps).map Token.lexeme = ps.filterMap Piece.lexeme?
  | _, [] => rfl
  | position, .lexeme l :: rest => by
    simp [tokensFrom, Piece.lexeme?, lexemes_tokensFrom _ rest]
  | position, .blank _ :: rest => lexemes_tokensFrom (position + 1) rest
  | position, .dropped d :: rest => lexemes_tokensFrom (position + d.text.length) rest

theorem droppedFrom_of_spaced : ∀ (position : Nat) {ps : List Piece}, Spaced ps →
    droppedFrom position ps = []
  | _, [], _ => rfl
  | position, .blank _ :: _, h => droppedFrom_of_spaced (position + 1) h.2
  | position, .lexeme l :: _, h => droppedFrom_of_spaced (position + l.spelling.length) h.2.2
  | _, .dropped _ :: _, h => h.elim

/-- The scan of a layout has its lexemes, and nothing is dropped. -/
theorem scan_layout {ps : List Piece} (h : Spaced ps) :
    (Scan.ofText (String.ofList (ps.flatMap Piece.text))).tokens.map Token.lexeme =
        ps.filterMap Piece.lexeme? ∧
      (Scan.ofText (String.ofList (ps.flatMap Piece.text))).diagnostics = [] := by
  simp only [Scan.ofText, String.toList_ofList, pieces_layout h]
  exact ⟨lexemes_tokensFrom 0 ps, droppedFrom_of_spaced 0 h⟩

/-! ### What a scan gives is known -/

theorem known_of_numberPiece {run : List Char} {l : Lexeme} (h : numberPiece run = .lexeme l) :
    l.Known := by
  unfold numberPiece at h
  split at h
  · cases h
  · next numeral _ =>
    cases hn : numeral.toNumber? with
    | none => rw [hn] at h; cases h
    | some number =>
      rw [hn] at h
      cases h
      exact Number.plain_of_toNumber? hn

theorem known_of_wordPiece {run : List Char} {l : Lexeme} (h : wordPiece run = .lexeme l) :
    l.Known := by
  unfold wordPiece at h
  by_cases hf : isFunctionName (String.ofList run) = true
  · rw [if_pos hf] at h
    cases h
    exact hf
  · rw [if_neg hf] at h
    by_cases ho : isOperator (String.ofList run) = true
    · rw [if_pos ho] at h
      cases h
      exact ⟨ho, by simpa using hf⟩
    · rw [if_neg ho] at h
      cases h

theorem known_of_nextPiece {c : Char} {cs : List Char} {l : Lexeme}
    (h : (nextPiece c cs).1 = .lexeme l) : l.Known := by
  unfold nextPiece at h
  split at h
  · cases h
  split at h
  · cases h; trivial
  split at h
  · cases h; trivial
  split at h
  · cases h; trivial
  split at h
  · split at h
    · cases h
    · cases h
      show '}' ∉ (String.ofList (cs.takeWhile (· ≠ '}'))).toList
      rw [String.toList_ofList]
      intro hmem
      simpa using List.mem_takeWhile_imp hmem
  split at h
  · exact known_of_numberPiece h
  split at h
  · exact known_of_wordPiece h
  split at h
  · exact known_of_wordPiece h
  · cases h

theorem known_of_mem_pieces (cs : List Char) : ∀ l, .lexeme l ∈ pieces cs → l.Known := by
  fun_induction pieces cs with
  | case1 => simp
  | case2 c cs ih =>
    intro l hl
    rcases List.mem_cons.mp hl with hl | hl
    · exact known_of_nextPiece hl.symm
    · exact ih l hl

/-- **Every lexeme that a scan gives is known.** -/
theorem known_of_mem_tokens {text : String} :
    ∀ t ∈ (Scan.ofText text).tokens, t.lexeme.Known := by
  intro t ht
  have hmem : t.lexeme ∈ (tokensFrom 0 (pieces text.toList)).map Token.lexeme :=
    List.mem_map_of_mem ht
  rw [lexemes_tokensFrom] at hmem
  obtain ⟨p, hp, hl⟩ := List.mem_filterMap.mp hmem
  cases p with
  | lexeme l =>
    obtain rfl := Option.some.inj hl
    exact known_of_mem_pieces _ _ hp
  | blank c => cases hl
  | dropped d => cases hl

end Formulary
