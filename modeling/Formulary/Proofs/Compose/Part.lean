/-
# Texts as parts of a text

A text that is read without a parenthesis or a brace that has no other one can be a part of a longer
text. Where it stands there, its terms and notes are added to what was read before, moved to its place
(`Part.read_append`), and its diagnostics stay between those of the text before it and behind it
(`Part.ordered`, `Ordered.append`).

Key definitions: `Part`, `Progress.extend`, `Ordered`.
Key theorems: `Part.read_append`, `Part.pieces_append`, `Part.ordered`.
-/
import Formulary.Proofs.Term.Account
import Formulary.Proofs.Term.Moved
import Formulary.Proofs.Term.Onto

namespace Formulary

/-- A text that is read under a limit, and no parenthesis and no brace in it is without its other one. -/
structure Part (limit : Int) (catalog : Catalog) where
  text : String
  formula : Formula
  read : Formula.read limit catalog text = .ok formula
  paired : ∀ d ∈ formula.diagnostics, d.fault.unpaired = false

theorem commasInside_moved {f : Nat → Nat} (depth : Nat) (tokens : List Token) :
    commasInside depth (tokens.map (Token.moved f)) = commasInside depth tokens := by
  induction tokens generalizing depth with
  | nil => rfl
  | cons t rest ih =>
    obtain ⟨l, position⟩ := t
    cases l <;> simp [commasInside, Token.moved, ih]

namespace Part

variable {limit : Int} {catalog : Catalog} (part : Part limit catalog)

/-! ### A part at its place -/

/-- The tokens of a part whose text starts at a place. -/
def tokensAt (n : Nat) : List Token :=
  part.formula.scan.tokens.map (Token.moved (n + ·))

/-- The diagnostics for the pieces dropped of a part whose text starts at a place. -/
def droppedAt (n : Nat) : List Diagnostic :=
  part.formula.scan.diagnostics.map (Diagnostic.moved (n + ·))

/-- The terms of a part whose text starts at a place. -/
def termsAt (n : Nat) : List Term :=
  part.formula.terms.map (Term.moved (n + ·))

/-- What is noted of a part whose text starts at a place. -/
def notesAt (n : Nat) : List Diagnostic :=
  part.formula.notes.map (Diagnostic.moved (n + ·))

/-- The diagnostics of a part whose text starts at a place. -/
def diagnosticsAt (n : Nat) : List Diagnostic :=
  part.formula.diagnostics.map (Diagnostic.moved (n + ·))

end Part

/-- A state behind a part whose text starts at a place. -/
def Progress.extend {limit : Int} {catalog : Catalog} (n : Nat) (part : Part limit catalog)
    (s : Progress) : Progress :=
  ⟨s.frames, (part.termsAt n).reverse ++ s.body, (part.notesAt n).reverse ++ s.notes⟩

namespace Part

variable {limit : Int} {catalog : Catalog} (part : Part limit catalog)

theorem scan_eq : part.formula.scan = Scan.ofText part.text :=
  (Formula.readTerms_of_read part.read).1

theorem readTerms_eq : readTerms limit catalog part.formula.scan.tokens =
    .ok (part.formula.terms, part.formula.notes) := by
  rw [part.scan_eq]
  exact (Formula.readTerms_of_read part.read).2

theorem paired_of_mem_notes {d : Diagnostic} (h : d ∈ part.formula.notes) :
    d.fault.unpaired = false :=
  part.paired d (Formula.mem_diagnostics.mpr (.inr h))

/-- At the end of a part nothing is open. -/
theorem read_start : Progress.read limit catalog part.formula.scan.tokens .start =
    .ok ⟨[], part.formula.terms.reverse, part.formula.notes.reverse⟩ := by
  obtain ⟨⟨frames, body, notes⟩, hread, hclose⟩ := exists_read_of_readTerms part.readTerms_eq
  have hnotes := Progress.notes_closeAll frames body notes
  rw [hclose] at hnotes
  cases frames with
  | nil =>
    have hterms : body.reverse = part.formula.terms := congrArg Prod.fst hclose
    have hnoted : notes.reverse = part.formula.notes := congrArg Prod.snd hclose
    rw [hread, ← hterms, ← hnoted, List.reverse_reverse, List.reverse_reverse]
  | cons frame frames =>
    have hmem : frame.unclosed ∈ part.formula.notes := by
      rw [show part.formula.notes = _ from hnotes]
      exact List.mem_append_right _ List.mem_cons_self
    have hfault := part.paired_of_mem_notes hmem
    obtain ⟨⟨position, name, arguments⟩ | _, opening, outer⟩ := frame <;> cases hfault

/-- A part does not start with a closing parenthesis. -/
theorem startsClosing_tokens : Token.startsClosing part.formula.scan.tokens = false := by
  have hread := part.read_start
  rcases htokens : part.formula.scan.tokens with _ | ⟨⟨l, position⟩, rest⟩
  · rfl
  · cases l with
    | closing =>
      rw [htokens, Progress.read_closing] at hread
      have hnoted : (⟨.unmatchedClosing, position⟩ : Diagnostic) ∈ part.formula.notes.reverse :=
        (Progress.run_of_read hread).notes_subset List.mem_cons_self
      cases part.paired_of_mem_notes (List.mem_reverse.mp hnoted)
    | _ => rfl

/-- **A part is read as it is read alone**, wherever it stands. -/
theorem read_append {greater : Int} {more : List Token} {s : Progress} (n : Nat)
    (hlimit : limit + s.frames.length ≤ greater) (hbehind : s.followsOperand = false)
    (hmore : Token.startsOpening more = false)
    (hcommas : s.inCall = false ∨ commasInside 0 part.formula.scan.tokens = true) :
    Progress.read greater catalog (part.tokensAt n ++ more) s =
      Progress.read greater catalog more (s.extend n part) := by
  have hmoved : Progress.read limit catalog (part.tokensAt n) .start =
      .ok (Progress.moved (n + ·) ⟨[], part.formula.terms.reverse, part.formula.notes.reverse⟩) :=
    (Progress.read_moved part.formula.scan.tokens .start).trans (by rw [part.read_start]; rfl)
  have honto := Progress.read_onto hmoved hlimit ?paired hbehind hmore
    (hcommas.imp_right ((commasInside_moved 0 part.formula.scan.tokens).trans ·))
  case paired =>
    intro d hd
    obtain ⟨e, he, rfl⟩ := List.mem_map.mp hd
    have hfault : e.fault.unpaired = false := part.paired_of_mem_notes (List.mem_reverse.mp he)
    exact hfault
  rw [Progress.extend, termsAt, notesAt, ← List.map_reverse, ← List.map_reverse]
  exact honto

/-- A part is scanned as it is scanned alone, where what follows ends its last run. -/
theorem pieces_append {rest : List Char} (hrest : EndsRun rest) :
    pieces (part.text.toList ++ rest) = pieces part.text.toList ++ pieces rest := by
  refine Formulary.pieces_append (fun hbrace => ?_) hrest
  obtain ⟨place, hplace⟩ := exists_mem_droppedFrom hbrace 0
  have hmem : (⟨.dropped .loneBrace, place⟩ : Diagnostic) ∈ part.formula.scan.diagnostics := by
    rw [part.scan_eq]
    exact hplace
  cases part.paired _ (Formula.mem_diagnostics.mpr (.inl hmem))

theorem tokensFrom_pieces (n : Nat) (qs : List Piece) :
    tokensFrom n (pieces part.text.toList ++ qs) =
      part.tokensAt n ++ tokensFrom (n + part.text.length) qs := by
  rw [tokensFrom_text, tokensAt, part.scan_eq]

theorem droppedFrom_pieces (n : Nat) (qs : List Piece) :
    droppedFrom n (pieces part.text.toList ++ qs) =
      part.droppedAt n ++ droppedFrom (n + part.text.length) qs := by
  rw [droppedFrom_text, droppedAt, part.scan_eq]

end Part

/-! ### Diagnostics in the order of the text -/

/-- Diagnostics in the order of the text, of a text from one place up to another, with the pieces
dropped and the notes that they are made of. -/
structure Ordered (first last : Nat) (dropped notes all : List Diagnostic) : Prop where
  perm : (dropped ++ notes).Perm all
  pairwise : all.Pairwise fun d e => d.position < e.position
  bounds : ∀ d ∈ all, first ≤ d.position ∧ d.position < last

namespace Ordered

variable {first last next finish : Nat} {dropped notes all dropped' notes' all' : List Diagnostic}

/-- Two texts one behind the other. -/
theorem append (h : Ordered first last dropped notes all)
    (h' : Ordered next finish dropped' notes' all') (hle : last ≤ next) (hfirst : first ≤ next)
    (hlast : last ≤ finish) :
    Ordered first finish (dropped ++ dropped') (notes ++ notes') (all ++ all') := by
  refine ⟨?perm, List.pairwise_append.mpr ⟨h.pairwise, h'.pairwise, ?between⟩, ?bounds⟩
  case perm =>
    have hmiddle : (dropped' ++ (notes ++ notes')).Perm (notes ++ (dropped' ++ notes')) := by
      rw [← List.append_assoc, ← List.append_assoc]
      exact List.perm_append_comm.append_right _
    rw [List.append_assoc]
    refine (hmiddle.append_left dropped).trans ?_
    rw [← List.append_assoc]
    exact h.perm.append h'.perm
  case between =>
    intro d hd e he
    exact Nat.lt_of_lt_of_le (h.bounds d hd).2 (hle.trans (h'.bounds e he).1)
  case bounds =>
    intro d hd
    rcases List.mem_append.mp hd with hd | hd
    · exact ⟨(h.bounds d hd).1, Nat.lt_of_lt_of_le (h.bounds d hd).2 hlast⟩
    · exact ⟨hfirst.trans (h'.bounds d hd).1, (h'.bounds d hd).2⟩

/-- Diagnostics in the order of the text are those of the formula. -/
theorem diagnostics_eq {formula : Formula}
    (h : Ordered first last formula.scan.diagnostics formula.notes all) :
    formula.diagnostics = all :=
  sortBy_of_perm h.perm h.pairwise

end Ordered

namespace Part

variable {limit : Int} {catalog : Catalog} (part : Part limit catalog)

theorem position_lt {d : Diagnostic} (hd : d ∈ part.formula.diagnostics) :
    d.position < part.text.length := by
  have hplace : d.position ∈ places 0 (pieces part.text.toList) := by
    rcases Formula.mem_diagnostics.mp hd with hdropped | hnoted
    · rw [part.scan_eq] at hdropped
      exact List.mem_append_left _ (List.mem_map_of_mem hdropped)
    · have hle := count_positions_le part.readTerms_eq d.position
      have hpos := List.count_pos_iff.mpr (List.mem_map_of_mem (f := Diagnostic.position) hnoted)
      rw [part.scan_eq] at hle
      exact List.mem_append_right _ (List.count_pos_iff.mp (Nat.lt_of_lt_of_le hpos hle))
  have hlt := lt_of_mem_places (text_ne_nil_of_mem_pieces _) hplace
  rwa [finishFrom_eq, flatMap_text_pieces, String.length_toList, Nat.zero_add] at hlt

/-- The diagnostics of a part stand where its text stands. -/
theorem ordered (n : Nat) : Ordered n (n + part.text.length) (part.droppedAt n) (part.notesAt n)
    (part.diagnosticsAt n) := by
  refine ⟨?perm, ?pairwise, ?bounds⟩
  case perm =>
    rw [droppedAt, notesAt, ← List.map_append]
    exact (part.formula.diagnostics_perm.map _).symm
  case pairwise =>
    have hnodup := Formula.nodup_positions (Formula.readTerms_of_read part.read).2
    rw [← part.scan_eq] at hnodup
    refine List.pairwise_map.mpr ((Formula.pairwise_diagnostics hnodup).imp fun hlt => ?_)
    exact Nat.add_lt_add_left hlt n
  case bounds =>
    intro d hd
    obtain ⟨e, he, rfl⟩ := List.mem_map.mp hd
    exact ⟨Nat.le_add_right _ _, Nat.add_lt_add_left (part.position_lt he) n⟩

end Part

end Formulary
