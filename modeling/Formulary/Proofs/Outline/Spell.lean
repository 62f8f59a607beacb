/-
# Layouts with any numbers

The text of a number below zero starts with a sign, which is scanned as an operator, and that of an
integer that is too large for a double is dropped. So the layout of an outline with any finite numbers has
known pieces (`pieces_sequenceMarks`), and if its text is that of some layout that is scanned without a
loss, then all its numbers are plain (`plain_of_text_eq`). Texts that are the same come from layouts that
are the same, save for the way their numbers are given (`settled_eq_of_text_eq`).

Key definition: `Mark.pieces`.
Key theorems: `Outline.pieces_sequenceMarks`, `Outline.plain_of_text_eq`,
`Outline.settled_eq_of_text_eq`.
-/
import Formulary.Proofs.Outline.Scan
import Formulary.Proofs.Token.Append

namespace Formulary

/-! ### The pieces of a number -/

theorem isSymbol_of_isDigit {c : Char} (h : c.isDigit = true) : isSymbol c = false := by
  have hall : ∀ d ∈ "<>=!+-*/^%".toList, d.isDigit = false := by simp
  by_contra hsymbol
  rw [Bool.not_eq_false, isSymbol, List.contains_iff_mem] at hsymbol
  rw [hall c hsymbol] at h
  cases h

theorem pieces_unsigned {cs rest : List Char} (h : Number.Unsigned cs) (hrest : EndsRun rest) :
    pieces (cs ++ rest) = numberPiece cs :: pieces rest := by
  obtain ⟨d, ds, rfl, hd, hds⟩ := h
  rw [List.cons_append, pieces, nextPiece_number hd hds hrest]

/-- A sign is an operator of its own. -/
theorem pieces_signed {cs rest : List Char} (h : Number.Unsigned cs) (hrest : EndsRun rest) :
    pieces ('-' :: cs ++ rest) = .lexeme (.operator "-") :: numberPiece cs :: pieces rest := by
  obtain ⟨d, ds, rfl, hd, hds⟩ := h
  have hsign : ¬isSymbol d = true := by rw [isSymbol_of_isDigit hd]; simp
  have hfirst : nextPiece '-' (d :: ds ++ rest) = (.lexeme (.operator "-"), d :: ds ++ rest) := by
    have hblank : Text.isBlank '-' = false := by decide
    have hdigit : Text.isDigit '-' = false := by decide
    have hletter : startsWord '-' = false := by decide
    have hsymbol : isSymbol '-' = true := by decide
    unfold nextPiece
    rw [if_neg (by simp [hblank]), if_neg (by decide), if_neg (by decide), if_neg (by decide),
      if_neg (by decide), if_neg (by simp [hdigit]), if_neg (by simp [hletter]), if_pos hsymbol,
      List.cons_append, List.takeWhile_cons_of_neg hsign, List.dropWhile_cons_of_neg hsign]
    rfl
  rw [List.cons_append, pieces, hfirst, pieces_unsigned ⟨d, ds, rfl, hd, hds⟩ hrest]

theorem numberPiece_cases (run : List Char) :
    (∃ l, numberPiece run = .lexeme l) ∨ ∃ d, numberPiece run = .dropped d := by
  unfold numberPiece
  split
  · exact .inr ⟨_, rfl⟩
  · next numeral _ =>
    cases numeral.toNumber? with
    | none => exact .inr ⟨_, rfl⟩
    | some number => exact .inl ⟨_, rfl⟩

/-- No number ends a run before it. -/
theorem separates_numberPiece (run : List Char) : (numberPiece run).separates = false := by
  unfold numberPiece
  split
  · rfl
  · next numeral _ =>
    cases numeral.toNumber? <;> rfl

theorem Spaced.of_append {ps qs : List Piece} (h : Spaced (ps ++ qs)) : Spaced qs := by
  induction ps with
  | nil => exact h
  | cons p ps ih =>
    cases p with
    | blank c => exact ih h.2
    | lexeme l => exact ih h.2.2
    | dropped d => exact h.elim

namespace Number

/-- The text of a finite number is a numeral, or a sign in front of one. -/
theorem pieces_text {n : Number} {q : ℚ} (h : n.value? = some q) :
    ∃ cs, (0 ≤ q ∧ cs = n.text ∨ q < 0 ∧ n.text = '-' :: cs) ∧ ∀ rest, EndsRun rest →
      pieces (n.text ++ rest) =
        (if q < 0 then [.lexeme (.operator "-"), numberPiece cs] else [numberPiece cs]) ++
          pieces rest := by
  rcases le_or_gt 0 q with hq | hq
  · refine ⟨n.text, .inl ⟨hq, rfl⟩, fun rest hrest => ?_⟩
    rw [if_neg (not_lt.mpr hq), pieces_unsigned (unsigned_text h hq) hrest]
    rfl
  · obtain ⟨cs, htext, hcs⟩ := exists_text_of_neg h hq
    refine ⟨cs, .inr ⟨hq, htext⟩, fun rest hrest => ?_⟩
    rw [if_pos hq, htext, pieces_signed hcs hrest]
    rfl

theorem pieces_text_append {n : Number} {q : ℚ} (h : n.value? = some q) {rest : List Char}
    (hrest : EndsRun rest) : pieces (n.text ++ rest) = pieces n.text ++ pieces rest := by
  obtain ⟨cs, -, hpieces⟩ := pieces_text h
  have hown := hpieces [] fun c hc => by cases hc
  rw [List.append_nil, show pieces [] = [] by rw [pieces], List.append_nil] at hown
  rw [hpieces rest hrest, hown]

/-- A number whose text is scanned without a loss is plain. -/
theorem plain_of_spaced {n : Number} {q : ℚ} {ps : List Piece} (h : n.value? = some q)
    (hspaced : Spaced (pieces n.text ++ ps)) : n.Plain := by
  obtain ⟨cs, hcs, hpieces⟩ := pieces_text h
  have hown := hpieces [] fun c hc => by cases hc
  rw [List.append_nil, show pieces [] = [] by rw [pieces], List.append_nil] at hown
  rw [hown] at hspaced
  rcases hcs with ⟨hq, rfl⟩ | ⟨hq, -⟩
  · rw [if_neg (not_lt.mpr hq)] at hspaced
    obtain ⟨l, hl⟩ | ⟨d, hd⟩ := numberPiece_cases n.text
    · exact plain_of_numberPiece h hq hl
    · rw [hd] at hspaced
      exact hspaced.elim
  · rw [if_pos hq] at hspaced
    -- The sign stands right in front of the digits, where a layout has a separator.
    have hseparates := hspaced.2.1 rfl (numberPiece cs) rfl
    rw [separates_numberPiece] at hseparates
    cases hseparates

end Number

/-! ### The pieces of a layout -/

namespace Mark

variable {catalog : Catalog}

/-- The pieces of the text of a mark. -/
def pieces (catalog : Catalog) : Mark → List Piece
  | value number => Formulary.pieces number.text
  | m => [m.piece catalog]

/-- Whether the text of a mark is prolonged by what follows, unless that ends it. -/
def isRun : Mark → Bool
  | word _ | value _ => true
  | blank | reference _ | opening | closing | comma => false

/-- The marks that end a run. -/
def separators : List Mark :=
  [blank, opening, closing, comma]

theorem endsRun_text (catalog : Catalog) {m : Mark} (h : m ∈ separators) (rest : List Char) :
    EndsRun (m.text catalog ++ rest) := by
  simp only [separators, List.mem_cons, List.not_mem_nil, or_false] at h
  rcases h with rfl | rfl | rfl | rfl <;> exact endsRun_cons (by simp) rest

theorem pieces_separator (catalog : Catalog) {m : Mark} (h : m ∈ separators) (rest : List Char) :
    Formulary.pieces (m.text catalog ++ rest) = m.pieces catalog ++ Formulary.pieces rest := by
  simp only [separators, List.mem_cons, List.not_mem_nil, or_false] at h
  rcases h with rfl | rfl | rfl | rfl
  · exact pieces_space rest
  · exact pieces_opening rest
  · exact pieces_closing rest
  · exact pieces_comma rest

theorem pieces_append_text {m : Mark} (hm : m.Spelled catalog) {rest : List Char}
    (hrest : m.isRun = true → EndsRun rest) :
    Formulary.pieces (m.text catalog ++ rest) = m.pieces catalog ++ Formulary.pieces rest := by
  cases m with
  | word word =>
    obtain ⟨l, hl, hcanonical, -⟩ := exists_lexeme (m := .word word) hm rfl
    have hown : pieces catalog (.word word) = [.lexeme l] := congrArg (fun p => [p]) hl
    rw [text, hown, hl]
    exact pieces_lexeme hcanonical fun _ => hrest rfl
  | reference id =>
    obtain ⟨l, hl, hcanonical, -⟩ := exists_lexeme (m := .reference id) hm rfl
    have hown : pieces catalog (.reference id) = [.lexeme l] := congrArg (fun p => [p]) hl
    rw [text, hown, hl]
    refine pieces_lexeme hcanonical fun hrun => ?_
    rw [← Piece.lexeme.inj hl] at hrun
    cases hrun
  | value number =>
    obtain ⟨q, hq⟩ := hm
    have htext : text catalog (.value number) = number.text := by
      simp [text, piece, Piece.text, Lexeme.ofNumber, Lexeme.spelling]
    rw [htext]
    exact Number.pieces_text_append hq (hrest rfl)
  | _ => exact pieces_separator catalog (by decide) rest

/-- A plain number is one piece. -/
theorem pieces_of_printable {m : Mark} (hm : m.Printable catalog) :
    m.pieces catalog = [m.piece catalog] := by
  cases m with
  | value number =>
    have hspaced : Spaced [.lexeme (.ofNumber number)] :=
      ⟨⟨number, hm, rfl⟩, fun _ _ hp => (by cases hp), trivial⟩
    have hlayout := pieces_layout hspaced
    rw [List.flatMap_singleton, Piece.text, Lexeme.ofNumber, Lexeme.spelling,
      String.toList_ofList] at hlayout
    exact hlayout
  | _ => rfl

/-- The mark of a piece of a layout, with its number settled. -/
def ofPiece? (catalog : Catalog) : Piece → Option Mark
  | .blank _ => some blank
  | .lexeme l => l.mark? catalog
  | .dropped _ => none

theorem ofPiece?_piece {m : Mark} (hm : m.Printable catalog) :
    ofPiece? catalog (m.piece catalog) = some m.settled := by
  by_cases hsolid : m.isSolid = true
  · obtain ⟨l, hl, -, hmark⟩ := exists_lexeme hm hsolid
    rw [hl]
    exact hmark
  · have hblank : m = blank := by simpa [isSolid] using hsolid
    rw [hblank]
    rfl

end Mark

namespace Outline

variable {catalog : Catalog}

mutual

theorem pieces_marks {rest : List Char} (hrest : EndsRun rest) : ∀ {o : Outline},
    (∀ m ∈ o.marks, m.Spelled catalog) →
    pieces (o.marks.flatMap (Mark.text catalog) ++ rest) =
      o.marks.flatMap (Mark.pieces catalog) ++ pieces rest
  | reference id, h => by
    rw [marks, List.flatMap_singleton, List.flatMap_singleton]
    exact Mark.pieces_append_text (h _ List.mem_cons_self) fun _ => hrest
  | operator symbol, h => by
    rw [marks, List.flatMap_singleton, List.flatMap_singleton]
    exact Mark.pieces_append_text (h _ List.mem_cons_self) fun _ => hrest
  | value number, h => by
    rw [marks, List.flatMap_singleton, List.flatMap_singleton]
    exact Mark.pieces_append_text (h _ List.mem_cons_self) fun _ => hrest
  | call name arguments, h => by
    simp only [marks, List.cons_append, List.mem_cons, List.mem_append] at h
    have hbody := pieces_argumentMarks (Mark.endsRun_text catalog (m := .closing) (by decide) rest)
      arguments fun m hm => h m (.inr (.inr (.inl hm)))
    simp only [marks, List.cons_append, List.flatMap_cons, List.flatMap_append, List.flatMap_nil,
      List.append_nil, List.append_assoc]
    rw [Mark.pieces_append_text (h (.word name) (.inl rfl)) fun _ => Mark.endsRun_text catalog (by decide) _,
      Mark.pieces_separator catalog (m := .opening) (by decide), hbody,
      Mark.pieces_separator catalog (m := .closing) (by decide)]
  | group body, h => by
    simp only [marks, List.cons_append, List.mem_cons, List.mem_append] at h
    have hbody := pieces_sequence (Mark.endsRun_text catalog (m := .closing) (by decide) rest)
      body fun m hm => h m (.inr (.inl hm))
    simp only [marks, List.cons_append, List.flatMap_cons, List.flatMap_append, List.flatMap_nil,
      List.append_nil, List.append_assoc]
    rw [Mark.pieces_separator catalog (m := .opening) (by decide), hbody,
      Mark.pieces_separator catalog (m := .closing) (by decide)]

/-- The pieces of the layout of a sequence in front of what ends runs. -/
theorem pieces_sequence {rest : List Char} (hrest : EndsRun rest) : ∀ os : List Outline,
    (∀ m ∈ sequenceMarks os, m.Spelled catalog) →
    pieces ((sequenceMarks os).flatMap (Mark.text catalog) ++ rest) =
      (sequenceMarks os).flatMap (Mark.pieces catalog) ++ pieces rest
  | [], _ => rfl
  | [o], h => pieces_marks hrest (o := o) h
  | o :: u :: others, h => by
    simp only [sequenceMarks_cons_cons, List.mem_append, List.mem_cons] at h
    have ih := pieces_sequence hrest (u :: others) fun m hm => h m (.inr (.inr hm))
    rw [sequenceMarks_cons_cons, List.flatMap_append, List.flatMap_append, List.flatMap_cons,
      List.flatMap_cons, List.append_assoc, List.append_assoc, List.append_assoc, List.append_assoc,
      pieces_marks (Mark.endsRun_text catalog (by decide) _) fun m hm => h m (.inl hm),
      Mark.pieces_separator catalog (m := .blank) (by decide), ih]

theorem pieces_argumentMarks {rest : List Char} (hrest : EndsRun rest) :
    ∀ as : List (List Outline), (∀ m ∈ argumentMarks as, m.Spelled catalog) →
    pieces ((argumentMarks as).flatMap (Mark.text catalog) ++ rest) =
      (argumentMarks as).flatMap (Mark.pieces catalog) ++ pieces rest
  | [], _ => rfl
  | [a], h => pieces_sequence hrest a h
  | a :: b :: others, h => by
    simp only [argumentMarks_cons_cons, List.mem_append, List.mem_cons] at h
    have ih := pieces_argumentMarks hrest (b :: others) fun m hm => h m (.inr (.inr (.inr hm)))
    simp only [argumentMarks_cons_cons, List.flatMap_append, List.flatMap_cons, List.append_assoc]
    rw [pieces_sequence (Mark.endsRun_text catalog (by decide) _) a fun m hm => h m (.inl hm),
      Mark.pieces_separator catalog (m := .comma) (by decide),
      Mark.pieces_separator catalog (m := .blank) (by decide), ih]

end

/-- **The pieces of a layout are those of its marks**, whatever finite numbers it has. -/
theorem pieces_sequenceMarks {os : List Outline}
    (h : ∀ m ∈ sequenceMarks os, m.Spelled catalog) :
    pieces ((sequenceMarks os).flatMap (Mark.text catalog)) =
      (sequenceMarks os).flatMap (Mark.pieces catalog) := by
  have hend : EndsRun [] := fun c hc => by cases hc
  have hpieces := pieces_sequence hend os h
  rwa [List.append_nil, show pieces [] = [] by rw [pieces], List.append_nil] at hpieces

/-- The pieces of a layout that is scanned without a loss. -/
theorem pieces_of_printable {os : List Outline} (h : Printable catalog os) :
    pieces ((sequenceMarks os).flatMap (Mark.text catalog)) =
      (sequenceMarks os).map (Mark.piece catalog) := by
  rw [pieces_sequenceMarks fun m hm => (h.marks m hm).spelled, List.map_eq_flatMap]
  exact List.flatMap_congr fun m hm => Mark.pieces_of_printable (h.marks m hm)

/-- **If the text of a layout is that of one that is scanned without a loss, all its numbers are
plain.** -/
theorem plain_of_text_eq {os us : List Outline} (hos : ∀ m ∈ sequenceMarks os, m.Spelled catalog)
    (hus : Printable catalog us)
    (htext : (sequenceMarks os).flatMap (Mark.text catalog) =
      (sequenceMarks us).flatMap (Mark.text catalog)) :
    ∀ m ∈ sequenceMarks os, m.Printable catalog := by
  have hpieces := pieces_sequenceMarks hos
  rw [htext, pieces_of_printable hus] at hpieces
  have hspaced := spaced_sequenceMarks us fun m hm => (hus.marks m hm).clear
  rw [hpieces] at hspaced
  intro m hm
  cases m with
  | value number =>
    obtain ⟨q, hq⟩ := hos _ hm
    obtain ⟨before, after, hsplit⟩ := List.append_of_mem hm
    rw [hsplit, List.flatMap_append, List.flatMap_cons] at hspaced
    exact Number.plain_of_spaced hq hspaced.of_append
  | _ => exact hos _ hm

/-- **Layouts with one text are the same layout**, with their numbers settled. -/
theorem settled_eq_of_text_eq {os us : List Outline} (hos : Printable catalog os)
    (hus : Printable catalog us)
    (htext : (sequenceMarks os).flatMap (Mark.text catalog) =
      (sequenceMarks us).flatMap (Mark.text catalog)) :
    sequenceMarks (sequenceSettled os) = sequenceMarks (sequenceSettled us) := by
  have hmap : ∀ {vs : List Outline}, Printable catalog vs →
      ((sequenceMarks vs).map (Mark.piece catalog)).map (Mark.ofPiece? catalog) =
        (sequenceMarks (sequenceSettled vs)).map some := by
    intro vs hvs
    rw [sequenceMarks_settled, List.map_map, List.map_map]
    exact List.map_congr_left fun m hm => Mark.ofPiece?_piece (hvs.marks m hm)
  have hpieces := pieces_of_printable hos
  rw [htext, pieces_of_printable hus] at hpieces
  have heq := hmap hos
  rw [← hpieces, hmap hus] at heq
  exact (List.map_injective_iff.mpr (Option.some_injective _) heq).symm

end Outline
end Formulary
