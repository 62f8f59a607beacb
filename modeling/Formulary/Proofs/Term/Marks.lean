/-
# What is read and what the tokens show

A step that notes nothing adds the marks of its tokens, in their order, to the layout of what is read
and of the parentheses that are open. So tokens that are read with nothing to note are the layout of
what they are read into, without its blanks (`marks_of_readTerms`).

Key definition: `Progress.marks`.
Key theorems: `Progress.Step.marks`, `marks_of_readTerms`.
-/
import Formulary.Proofs.Term.Sound

namespace Formulary

open Outline

variable {limit : Int} {catalog : Catalog}

/-- The layout of what a parenthesis belongs to, up to its last comma. -/
def Opened.marks : Opened → List Mark
  | .call _ name arguments =>
    .word name :: .opening ::
      (arguments.reverse.flatMap fun a => sequenceSolid (Term.outlines a) ++ [.comma])
  | .group => [.opening]

/-- The layout of open parentheses and what stands before each of them. -/
def framesMarks : List Frame → List Mark
  | [] => []
  | frame :: rest =>
    framesMarks rest ++ sequenceSolid (Term.outlines frame.outer.reverse) ++ frame.opened.marks

namespace Progress

variable {s : Progress} {tokens : List Token}

/-- The layout of what is read so far, without blanks. -/
def marks (s : Progress) : List Mark :=
  framesMarks s.frames ++ sequenceSolid (Term.outlines s.body.reverse)

theorem sequenceSolid_concat (body : List Term) (term : Term) :
    sequenceSolid (Term.outlines (term :: body).reverse) =
      sequenceSolid (Term.outlines body.reverse) ++ term.outline.solid := by
  rw [Term.outlines_concat, sequenceSolid_append, sequenceSolid_cons]
  simp [sequenceSolid, sequenceMarks]

theorem marks_push (term : Term) (s : Progress) :
    (s.push term).marks = s.marks ++ term.outline.solid := by
  simp only [marks, push, sequenceSolid_concat, List.append_assoc]

theorem marks_enter (opened : Opened) (opening : Nat) (s : Progress) :
    (s.enter opened opening).marks = s.marks ++ opened.marks := by
  simp [marks, enter, framesMarks, sequenceSolid, sequenceMarks, Term.outlines]

/-- The layout of a term whose parenthesis is closed. -/
theorem solid_close (frame : Frame) (closing : Option Nat) (body : List Term) :
    (frame.close closing body).outline.solid =
      frame.opened.marks ++ sequenceSolid (Term.outlines body.reverse) ++ [.closing] := by
  obtain ⟨⟨position, name, arguments⟩ | _, opening, outer⟩ := frame
  · simp only [Frame.close, Term.outline, solid_call, Opened.marks]
    rw [Term.argumentOutlines_eq_map, List.reverse_cons, List.map_append, List.map_singleton,
      argumentSolid_concat, List.flatMap_map]
    simp
  · simp only [Frame.close, Term.outline, solid_group, Opened.marks]
    simp

theorem marks_leave {position : Nat} (h : (s.leave position).notes = []) :
    (s.leave position).marks = s.marks ++ [.closing] := by
  obtain ⟨_ | ⟨frame, frames⟩, body, notes⟩ := s
  · exact (notes_note_ne _ _ _ h).elim
  · simp only [marks, leave, framesMarks, sequenceSolid_concat, solid_close, List.append_assoc]

theorem marks_separate {position : Nat} (h : (s.separate position).notes = []) :
    (s.separate position).marks = s.marks ++ [.comma] := by
  obtain ⟨_ | ⟨⟨⟨start, name, arguments⟩ | _, opening, outer⟩, frames⟩, body, notes⟩ := s
  · exact (notes_note_ne _ _ _ h).elim
  · simp [marks, separate, framesMarks, Opened.marks, sequenceSolid, sequenceMarks, Term.outlines]
  · exact (notes_note_ne _ _ _ h).elim

/-- **A step that notes nothing adds the marks of its tokens** to what is read. -/
theorem Step.marks {tokens' : List Token} {s' : Progress}
    (hstep : Step limit catalog tokens s tokens' s') (h : s'.notes = []) :
    ∃ used, tokens = used ++ tokens' ∧
      s'.marks.map some = s.marks.map some ++ used.map fun t => t.lexeme.mark? catalog := by
  cases hstep with
  | @word l word position _ _ hword _ =>
    refine ⟨[_], rfl, ?_⟩
    rw [marks_push, List.map_append]
    rcases hword with ⟨rfl, -⟩ | rfl <;> rfl
  | @reference name position _ _ =>
    unfold refer at h ⊢
    cases hfound : catalog.findByName? name with
    | none =>
      rw [hfound] at h
      exact (notes_note_ne _ _ _ h).elim
    | some found =>
      rw [hfound] at h
      refine ⟨[_], rfl, ?_⟩
      rw [marks_push, List.map_append, List.map_singleton, Lexeme.mark?, hfound]
      rfl
  | @value literal number position _ _ =>
    refine ⟨[_], rfl, ?_⟩
    rw [marks_push, List.map_append]
    rfl
  | @missing name position _ _ _ => exact (notes_note_ne _ _ _ h).elim
  | @bareCall name position opening closing _ _ _ _ =>
    refine ⟨[_, _, _], rfl, ?_⟩
    rw [marks_push, List.map_append]
    rfl
  | @unclosed name position opening _ _ _ => exact (notes_note_ne _ _ _ h).elim
  | @call name position opening _ _ _ _ _ =>
    refine ⟨[_, _], rfl, ?_⟩
    rw [marks_enter, List.map_append]
    rfl
  | @opening position _ _ _ =>
    refine ⟨[_], rfl, ?_⟩
    rw [marks_enter, List.map_append]
    rfl
  | @closing position _ _ =>
    refine ⟨[_], rfl, ?_⟩
    rw [marks_leave h, List.map_append]
    rfl
  | @comma position _ _ =>
    refine ⟨[_], rfl, ?_⟩
    rw [marks_separate h, List.map_append]
    rfl

/-- The tokens of a run that notes nothing show what it reads. -/
theorem Run.marks {s' : Progress} (hrun : Run limit catalog tokens s s') (h : s'.notes = []) :
    s'.marks.map some = s.marks.map some ++ tokens.map fun t => t.lexeme.mark? catalog := by
  induction hrun with
  | done => simp
  | step hstep hrest ih =>
    have hnotes := List.subset_nil.mp (h ▸ hrest.notes_subset)
    obtain ⟨used, rfl, hused⟩ := hstep.marks hnotes
    rw [ih h, hused, List.map_append, List.append_assoc]

end Progress

/-- **Tokens that are read with nothing to note show what is read.** -/
theorem marks_of_readTerms {tokens : List Token} {terms : List Term}
    (h : readTerms limit catalog tokens = .ok (terms, [])) :
    (tokens.map fun t => t.lexeme.mark? catalog) =
      (sequenceSolid (Term.outlines terms)).map some := by
  obtain ⟨s, hread, hclose⟩ := exists_read_of_readTerms h
  have hclosed := Progress.notes_closeAll s.frames s.body s.notes
  rw [hclose, eq_comm, List.append_eq_nil_iff, List.reverse_eq_nil_iff, List.map_eq_nil_iff]
    at hclosed
  obtain ⟨hnotes, hframes⟩ := hclosed
  have hmarks := (Progress.run_of_read hread).marks hnotes
  rw [hframes, hnotes] at hclose
  have hterms : s.body.reverse = terms := congrArg Prod.fst hclose
  rw [Progress.marks, hframes, hterms] at hmarks
  exact hmarks.symm

end Formulary
