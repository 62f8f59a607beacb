/-
# Outlines under a catalog

A catalog turns marks into pieces of a text and lexemes into marks. The layout of an outline that the
catalog can express is scanned without a loss, and the lexemes of the scan have the marks of the
outline, with its numbers settled (`scan_sequenceMarks`).

That the layout is scanned without a loss does not depend on what the catalog has for the names
(`scan_of_clear`).

Key definitions: `Lexeme.mark?`, `Mark.piece`, `Mark.Printable`, `Mark.Spelled`, `Mark.Clear`,
`Mark.Written`, `Outline.Sound`, `Outline.Printable`.
Key theorems: `Outline.scan_of_clear`, `Outline.scan_sequenceMarks`.
-/
import Formulary.Catalog.Basic
import Formulary.Proofs.Outline.Basic
import Formulary.Proofs.Token.Layout

namespace Formulary

/-- The mark of a lexeme; a name that the catalog does not have gives none. -/
def Lexeme.mark? (catalog : Catalog) : Lexeme → Option Mark
  | function name => some (.word name)
  | operator symbol => some (.word symbol)
  | reference name => (catalog.findByName? name).map fun found => .reference found.id
  | value _ number => some (.value number)
  | opening => some .opening
  | closing => some .closing
  | comma => some .comma

/-- Whether the catalog has an attribute for an identifier, its name has no closing brace, and the name
leads to an attribute with the same identifier. -/
def Catalog.Resolves (catalog : Catalog) (id : String) : Prop :=
  ∃ found, catalog.lookup? id = some found ∧ '}' ∉ found.name.toList ∧
    (catalog.findByName? found.name).map (·.id) = some id

/-- Whether a reference comes back when it is written. The empty identifier refers to nothing. -/
def Catalog.Expresses (catalog : Catalog) (id : String) : Prop :=
  id ≠ "" ∧ catalog.Resolves id

namespace Mark

/-- The piece that a mark stands for. -/
def piece (catalog : Catalog) : Mark → Piece
  | blank => .blank ' '
  | word text => .lexeme (if isFunctionName text then .function text else .operator text)
  | reference id => .lexeme (.reference (((catalog.lookup? id).map (·.name)).getD ""))
  | value number => .lexeme (.ofNumber number)
  | opening => .lexeme .opening
  | closing => .lexeme .closing
  | comma => .lexeme .comma

/-- The text of a mark. -/
def text (catalog : Catalog) (m : Mark) : List Char :=
  (m.piece catalog).text

/-- What holds of the marks of a canonical text. -/
def Printable (catalog : Catalog) : Mark → Prop
  | word text => isFunctionName text = true ∨ isOperator text = true
  | reference id => catalog.Expresses id
  | value number => number.Plain
  | blank | opening | closing | comma => True

/-- What holds of the marks of the text of a store whose numbers are finite. -/
def Spelled (catalog : Catalog) : Mark → Prop
  | word text => isFunctionName text = true ∨ isOperator text = true
  | reference id => catalog.Expresses id
  | value number => ∃ q, number.value? = some q
  | blank | opening | closing | comma => True

/-- What holds of the marks of a text that is scanned without a loss, whatever the names lead to. -/
def Clear (catalog : Catalog) : Mark → Prop
  | word text => isFunctionName text = true ∨ isOperator text = true
  | reference id => id ≠ "" ∧ ∃ found, catalog.lookup? id = some found ∧ '}' ∉ found.name.toList
  | value number => number.Plain
  | blank | opening | closing | comma => True

/-- What holds of the marks of the text of a store whose numbers are finite and whose references the
catalog knows, whatever the names are that they are written with. -/
def Written (catalog : Catalog) : Mark → Prop
  | word text => isFunctionName text = true ∨ isOperator text = true
  | reference id => id ≠ "" ∧ (catalog.lookup? id).isSome = true
  | value number => ∃ q, number.value? = some q
  | blank | opening | closing | comma => True

theorem Printable.spelled {catalog : Catalog} {m : Mark} (h : m.Printable catalog) :
    m.Spelled catalog := by
  cases m with
  | value number => exact Number.exists_value_of_plain h
  | _ => exact h

theorem Spelled.written {catalog : Catalog} {m : Mark} (h : m.Spelled catalog) :
    m.Written catalog := by
  cases m with
  | reference id =>
    obtain ⟨hid, found, hfound, -⟩ := h
    exact ⟨hid, Option.isSome_iff_exists.mpr ⟨found, hfound⟩⟩
  | _ => exact h

theorem Printable.clear {catalog : Catalog} {m : Mark} (h : m.Printable catalog) : m.Clear catalog := by
  cases m with
  | reference id =>
    obtain ⟨hid, found, hfound, hbrace, -⟩ := h
    exact ⟨hid, found, hfound, hbrace⟩
  | _ => exact h

theorem Clear.written {catalog : Catalog} {m : Mark} (h : m.Clear catalog) : m.Written catalog := by
  cases m with
  | value number => exact Number.exists_value_of_plain h
  | reference id =>
    obtain ⟨hid, found, hfound, -⟩ := h
    exact ⟨hid, Option.isSome_iff_exists.mpr ⟨found, hfound⟩⟩
  | _ => exact h

/-- A clear mark that is no blank stands for a canonical lexeme. -/
theorem Clear.exists_lexeme {catalog : Catalog} {m : Mark} (hm : m.Clear catalog)
    (hsolid : m.isSolid = true) : ∃ l, m.piece catalog = .lexeme l ∧ l.Canonical := by
  cases m with
  | blank => cases hsolid
  | word text =>
    by_cases h : isFunctionName text = true
    · exact ⟨.function text, by rw [piece, if_pos h], h⟩
    · have hoperator := hm.resolve_left h
      exact ⟨.operator text, by rw [piece, if_neg h], hoperator, by simpa using h⟩
  | reference id =>
    obtain ⟨-, found, hfound, hbrace⟩ := hm
    exact ⟨.reference found.name, by rw [piece, hfound]; rfl, hbrace⟩
  | value number => exact ⟨.ofNumber number, rfl, number, hm, rfl⟩
  | opening => exact ⟨.opening, rfl, trivial⟩
  | closing => exact ⟨.closing, rfl, trivial⟩
  | comma => exact ⟨.comma, rfl, trivial⟩

/-- The lexeme of a printable mark has the mark, with its number settled. -/
theorem mark?_of_piece {catalog : Catalog} {m : Mark} {l : Lexeme} (hm : m.Printable catalog)
    (hl : m.piece catalog = .lexeme l) : l.mark? catalog = some m.settled := by
  cases m with
  | blank => cases hl
  | word text =>
    obtain rfl := Piece.lexeme.inj hl
    split <;> rfl
  | reference id =>
    obtain ⟨-, found, hfound, -, hback⟩ := hm
    obtain ⟨other, hother, rfl⟩ := Option.map_eq_some_iff.mp hback
    rw [piece, hfound] at hl
    obtain rfl := Piece.lexeme.inj hl
    rw [Option.map_some, Option.getD_some, Lexeme.mark?, hother]
    rfl
  | _ =>
    obtain rfl := Piece.lexeme.inj hl
    rfl

/-- The lexeme of a printable mark is canonical and has the mark, with its number settled. -/
theorem exists_lexeme {catalog : Catalog} {m : Mark} (hm : m.Printable catalog)
    (hsolid : m.isSolid = true) :
    ∃ l, m.piece catalog = .lexeme l ∧ l.Canonical ∧ l.mark? catalog = some m.settled := by
  obtain ⟨l, hl, hcanonical⟩ := hm.clear.exists_lexeme hsolid
  exact ⟨l, hl, hcanonical, mark?_of_piece hm hl⟩

/-- The lexemes of a layout have its marks, without the blanks and with the numbers settled. -/
theorem lexemes_pieces {catalog : Catalog} : ∀ {ms : List Mark},
    (∀ m ∈ ms, m.Printable catalog) →
    ((ms.map (piece catalog)).filterMap Piece.lexeme?).map (Lexeme.mark? catalog) =
      ((ms.map settled).filter isSolid).map some
  | [], _ => rfl
  | m :: ms, h => by
    have ih := lexemes_pieces fun m hm => h m (List.mem_cons_of_mem _ hm)
    by_cases hsolid : m.isSolid = true
    · obtain ⟨l, hl, -, hmark⟩ := exists_lexeme (h m List.mem_cons_self) hsolid
      have hsettled : m.settled.isSolid = true := by
        cases m <;> first | rfl | exact hsolid
      rw [List.map_cons, List.filterMap_cons, hl, List.map_cons, List.filter_cons_of_pos hsettled,
        List.map_cons, ← ih]
      simp only [Piece.lexeme?, List.map_cons, hmark]
    · have hblank : m = blank := by simpa [isSolid] using hsolid
      subst hblank
      exact ih

end Mark

namespace Outline

/-- What holds of the parts of a formula that a catalog can express, whatever is inside them. -/
def Sound (catalog : Catalog) : Outline → Prop
  | reference id => catalog.Expresses id
  | operator symbol => isOperator symbol = true
  | value number => number.Plain
  | call name _ => isFunctionName name = true
  | group _ => True

/-- A sequence that a catalog can express. -/
def Printable (catalog : Catalog) (os : List Outline) : Prop :=
  ∀ q ∈ sequences os, ∀ o ∈ q, o.Sound catalog

variable {catalog : Catalog}

theorem sound_settled {o : Outline} (h : o.Sound catalog) : o.settled.Sound catalog := by
  cases o with
  | value number => exact Number.plain_settled h
  | _ => exact h

theorem printable_settled {os : List Outline} (h : Printable catalog os) :
    Printable catalog (sequenceSettled os) := by
  intro q hq u hu
  rw [sequences_settled] at hq
  obtain ⟨r, hr, rfl⟩ := List.mem_map.mp hq
  rw [sequenceSettled_eq_map] at hu
  obtain ⟨o, ho, rfl⟩ := List.mem_map.mp hu
  exact sound_settled (h r hr o ho)

/-! ### The marks of an outline are printable -/

theorem printable_own {o : Outline} (h : o.Sound catalog) : ∀ m ∈ o.own, m.Printable catalog := by
  intro m hm
  cases o with
  | group body => cases hm
  | operator symbol =>
    obtain rfl := Option.some.inj hm
    exact .inr h
  | call name arguments =>
    obtain rfl := Option.some.inj hm
    exact .inl h
  | _ =>
    obtain rfl := Option.some.inj hm
    exact h

/-- What holds of blanks, parentheses and commas. -/
theorem printable_frame : ∀ m ∈ [Mark.blank, .opening, .closing, .comma], m.Printable catalog := by
  simp [Mark.Printable]

theorem Printable.marks {os : List Outline} (h : Printable catalog os) :
    ∀ m ∈ sequenceMarks os, m.Printable catalog :=
  (forall_mem_sequenceMarks printable_frame os).mpr fun q hq o ho => printable_own (h q hq o ho)

/-! ### The layout of an outline is spaced -/

/-- A canonical lexeme in front of a separator. -/
theorem spaced_cons {m : Mark} {ps : List Piece} (hm : m.Clear catalog)
    (hhead : ∀ p ∈ ps.head?, p.separates = true) (hps : Spaced ps) :
    Spaced (m.piece catalog :: ps) := by
  by_cases hsolid : m.isSolid = true
  · obtain ⟨l, hl, hcanonical⟩ := hm.exists_lexeme hsolid
    rw [hl]
    exact ⟨hcanonical, fun _ => hhead, hps⟩
  · have hblank : m = .blank := by simpa [Mark.isSolid] using hsolid
    subst hblank
    exact ⟨rfl, hps⟩

/-- A lexeme that is no run stands in front of anything. -/
theorem spaced_solid {l : Lexeme} {ps : List Piece} (hl : l.Canonical) (hrun : l.isRun = false)
    (hps : Spaced ps) : Spaced (.lexeme l :: ps) :=
  ⟨hl, fun h => (by rw [hrun] at h; cases h), hps⟩

/-- A layout that is closed. -/
theorem spaced_closed {ps : List Piece} (h : Spaced ps) : Spaced (ps ++ [.lexeme .closing]) := by
  have hclosing : Spaced [.lexeme .closing] := spaced_solid (l := .closing) trivial rfl trivial
  refine Spaced.append hclosing (fun p hp => ?_) h
  obtain rfl := Option.some.inj hp
  rfl

mutual

theorem spaced_marks : ∀ {o : Outline}, (∀ m ∈ o.marks, m.Clear catalog) →
    Spaced (o.marks.map (Mark.piece catalog))
  | reference _, h => spaced_cons (h _ List.mem_cons_self) (fun _ hp => by cases hp) trivial
  | operator _, h => spaced_cons (h _ List.mem_cons_self) (fun _ hp => by cases hp) trivial
  | value _, h => spaced_cons (h _ List.mem_cons_self) (fun _ hp => by cases hp) trivial
  | call name arguments, h => by
    simp only [marks, List.cons_append, List.mem_cons, List.mem_append, List.map_cons,
      List.map_append, List.map_nil] at h ⊢
    have hbody := spaced_closed (spaced_argumentMarks arguments fun m hm => h m (.inr (.inr (.inl hm))))
    refine spaced_cons (h (.word name) (.inl rfl)) (fun p hp => ?_)
      (spaced_solid (l := .opening) trivial rfl hbody)
    obtain rfl := Option.some.inj hp
    rfl
  | group body, h => by
    simp only [marks, List.cons_append, List.mem_cons, List.mem_append, List.map_cons,
      List.map_append, List.map_nil] at h ⊢
    have hbody := spaced_closed (spaced_sequenceMarks body fun m hm => h m (.inr (.inl hm)))
    exact spaced_solid (l := .opening) trivial rfl hbody

theorem spaced_sequenceMarks : ∀ (os : List Outline), (∀ m ∈ sequenceMarks os, m.Clear catalog) →
    Spaced ((sequenceMarks os).map (Mark.piece catalog))
  | [], _ => trivial
  | [o], h => spaced_marks (o := o) h
  | o :: u :: rest, h => by
    simp only [sequenceMarks_cons_cons, List.mem_append, List.mem_cons, List.map_append,
      List.map_cons] at h ⊢
    have ho := spaced_marks (o := o) fun m hm => h m (.inl hm)
    have ih := spaced_sequenceMarks (u :: rest) fun m hm => h m (.inr (.inr hm))
    have hblank : Spaced (.blank ' ' :: (sequenceMarks (u :: rest)).map (Mark.piece catalog)) :=
      ⟨rfl, ih⟩
    refine Spaced.append hblank (fun p hp => ?_) ho
    obtain rfl := Option.some.inj hp
    rfl

theorem spaced_argumentMarks : ∀ (as : List (List Outline)),
    (∀ m ∈ argumentMarks as, m.Clear catalog) →
    Spaced ((argumentMarks as).map (Mark.piece catalog))
  | [], _ => trivial
  | [a], h => spaced_sequenceMarks a h
  | a :: b :: rest, h => by
    simp only [argumentMarks_cons_cons, List.mem_append, List.mem_cons, List.map_append,
      List.map_cons] at h ⊢
    have ha := spaced_sequenceMarks a fun m hm => h m (.inl hm)
    have ih := spaced_argumentMarks (b :: rest) fun m hm => h m (.inr (.inr (.inr hm)))
    have hblank : Spaced (.blank ' ' :: (argumentMarks (b :: rest)).map (Mark.piece catalog)) :=
      ⟨rfl, ih⟩
    refine Spaced.append (spaced_solid (l := .comma) trivial rfl hblank) (fun p hp => ?_) ha
    obtain rfl := Option.some.inj hp
    rfl

end

/-- **A layout whose marks are clear is scanned without a loss**, into the lexemes of its marks. -/
theorem scan_of_clear {os : List Outline} (h : ∀ m ∈ sequenceMarks os, m.Clear catalog) :
    (Scan.ofText (String.ofList ((sequenceMarks os).flatMap (Mark.text catalog)))).tokens.map
        Token.lexeme = ((sequenceMarks os).map (Mark.piece catalog)).filterMap Piece.lexeme? ∧
      (Scan.ofText (String.ofList ((sequenceMarks os).flatMap (Mark.text catalog)))).diagnostics =
        [] := by
  have htext : (sequenceMarks os).flatMap (Mark.text catalog) =
      ((sequenceMarks os).map (Mark.piece catalog)).flatMap Piece.text := by
    rw [List.flatMap_map]
    rfl
  rw [htext]
  exact scan_layout (spaced_sequenceMarks os h)

/-- **The layout of an outline is scanned without a loss**, into lexemes with its marks. -/
theorem scan_sequenceMarks {os : List Outline} (h : Printable catalog os) :
    (Scan.ofText (String.ofList ((sequenceMarks os).flatMap (Mark.text catalog)))).tokens.map
        (fun t => t.lexeme.mark? catalog) =
          (sequenceSolid (sequenceSettled os)).map some ∧
      (Scan.ofText (String.ofList ((sequenceMarks os).flatMap (Mark.text catalog)))).diagnostics =
        [] := by
  have hscan := scan_of_clear fun m hm => (h.marks m hm).clear
  refine ⟨?_, hscan.2⟩
  have hmap := congrArg (List.map (Lexeme.mark? catalog)) hscan.1
  rw [List.map_map, Mark.lexemes_pieces h.marks] at hmap
  rw [sequenceSolid, sequenceMarks_settled]
  exact hmap

end Outline
end Formulary
