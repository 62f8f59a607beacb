/-
# Layouts that are read as they are meant

Whether a word is read as it is meant shows in the layout alone: it hangs on whether an operand stands
before the word, and on whether a parenthesis follows at once or behind a blank. So two outlines with one
layout are read as they are meant both or neither, whatever they are (`legible_sequenceMarks`).

Key definitions: `Mark.legible`, `Outline.Clear`.
Key theorem: `Outline.legible_sequenceMarks`.
-/
import Formulary.Proofs.Outline.Tighten

namespace Formulary

namespace Mark

/-- Whether an operand ends with a mark; a blank leaves things as they are. -/
def endsOperand (before : Bool) : Mark → Bool
  | blank => before
  | reference _ | value _ | closing => true
  | word _ | opening | comma => false

/-- Whether a parenthesis stands behind a blank. -/
def opensBehind : List Mark → Bool
  | blank :: opening :: _ => true
  | _ => false

/-- Whether a mark in front of others is read as it is meant: the word of a call does not stand behind an
operand if it is that of an operator too, and the word of an operator in front of a group stands behind
one if it is that of a function too. -/
def fits (before : Bool) : Mark → List Mark → Bool
  | word text, opening :: _ => !(isOperator text && before)
  | word text, rest => !(isFunctionName text && !before && opensBehind rest)
  | _, _ => true

/-- Whether all marks are read as they are meant; `before` tells whether an operand stands before
them. -/
def legible : Bool → List Mark → Bool
  | _, [] => true
  | before, m :: rest => m.fits before rest && legible (m.endsOperand before) rest

theorem legible_blank (before : Bool) (ms : List Mark) :
    legible before (blank :: ms) = legible before ms := by
  simp [legible, fits, endsOperand]

theorem legible_opening (before : Bool) (ms : List Mark) :
    legible before (opening :: ms) = legible false ms := by
  simp [legible, fits, endsOperand]

theorem legible_closing (before : Bool) (ms : List Mark) :
    legible before (closing :: ms) = legible true ms := by
  simp [legible, fits, endsOperand]

theorem legible_comma (before : Bool) (ms : List Mark) :
    legible before (comma :: ms) = legible false ms := by
  simp [legible, fits, endsOperand]

theorem legible_call (before : Bool) (name : String) (ms : List Mark) :
    legible before (word name :: opening :: ms) =
      (!(isOperator name && before) && legible false ms) := by
  rw [legible, legible_opening]
  rfl

/-- The word of an operator is followed by no parenthesis at once. -/
theorem legible_operator {before : Bool} {symbol : String} {ms : List Mark}
    (h : ms.head? ≠ some opening) : legible before (word symbol :: ms) =
      (!(isFunctionName symbol && !before && opensBehind ms) && legible false ms) := by
  rw [legible]
  rcases ms with _ | ⟨_ | _ | _ | _ | _ | _ | _, ms⟩
  all_goals first | exact (h rfl).elim | rfl

end Mark

namespace Outline

open Mark (legible opensBehind)

/-- Whether a sequence is read as it is meant, whatever is inside its parts. -/
def Clear (before : Bool) (os : List Outline) : Prop :=
  Role.callsFit before (os.map role) = true ∧ Role.misreads before (os.map role) = 0

/-- Whether the first part of a sequence is read as it is meant in front of the rest. -/
def startsClear (before : Bool) (rest : List Outline) : Outline → Bool
  | call name _ => !(isOperator name && before)
  | operator symbol => !(isFunctionName symbol && !before && startsGroup rest)
  | _ => true

theorem clear_nil (before : Bool) : Clear before [] :=
  ⟨rfl, rfl⟩

theorem clear_cons {before : Bool} {o : Outline} {rest : List Outline} :
    Clear before (o :: rest) ↔ o.startsClear before rest = true ∧ Clear o.isOperand rest := by
  have hgroup := head?_map_role rest
  unfold Clear
  rw [List.map_cons, Role.callsFit, Role.misreads, isOperand_role, Bool.and_eq_true,
    Nat.add_eq_zero_iff]
  generalize rest.map role = rs at hgroup ⊢
  cases o with
  | operator symbol =>
    by_cases hword : isFunctionName symbol = true <;> cases before <;>
      simp [role, Role.ofOperator, startsClear, hword, hgroup, and_left_comm]
  | call name arguments =>
    by_cases hname : isOperator name = true <;> cases before <;>
      simp [role, Role.ofCall, startsClear, hname]
  | _ => simp [role, startsClear]

/-- Settled numbers make no difference. -/
theorem clear_settled_iff {os : List Outline} :
    (∀ q ∈ sequences (sequenceSettled os), Clear false q) ↔ ∀ q ∈ sequences os, Clear false q := by
  rw [sequences_settled, List.forall_mem_map]
  simp only [Clear, map_role_settled]

/-- What may follow a sequence in a layout. -/
def Closes (tail : List Mark) : Prop := ∀ m ∈ tail.head?, m = .closing ∨ m = .comma

theorem Closes.head?_ne {tail : List Mark} (h : Closes tail) : tail.head? ≠ some .opening := by
  intro hhead
  rcases h _ hhead with heq | heq <;> cases heq

theorem Closes.opensBehind {tail : List Mark} (h : Closes tail) : Mark.opensBehind tail = false := by
  rcases tail with _ | ⟨m, tail⟩
  · rfl
  · rcases h m rfl with rfl | rfl <;> rfl

/-- What follows a sequence makes no difference between operands and operators before it. -/
theorem Closes.legible_eq {tail : List Mark} (h : Closes tail) (before : Bool) :
    legible before tail = legible false tail := by
  rcases tail with _ | ⟨m, tail⟩
  · rfl
  · rcases h m rfl with rfl | rfl
    · rw [Mark.legible_closing, Mark.legible_closing]
    · rw [Mark.legible_comma, Mark.legible_comma]

theorem closes_closing (ms : List Mark) : Closes (.closing :: ms) := by
  rintro m hm
  exact .inl (Option.some.inj hm).symm

theorem closes_comma (ms : List Mark) : Closes (.comma :: ms) := by
  rintro m hm
  exact .inr (Option.some.inj hm).symm

/-- A parenthesis stands behind a part and a blank if a group follows in the sequence. -/
theorem opensBehind_behindMarks (os : List Outline) {tail : List Mark} (htail : Closes tail) :
    opensBehind (behindMarks os ++ tail) = startsGroup os := by
  rcases os with _ | ⟨_ | _ | _ | _ | _, os⟩
  · exact htail.opensBehind
  all_goals rfl

theorem head?_behindMarks_ne (os : List Outline) {tail : List Mark} (htail : Closes tail) :
    (behindMarks os ++ tail).head? ≠ some .opening := by
  rcases os with _ | ⟨o, os⟩
  · exact htail.head?_ne
  · simp [behindMarks]

theorem legible_behindMarks {before : Bool} {os : List Outline} {tail : List Mark} :
    legible before (behindMarks os ++ tail) = legible before (sequenceMarks os ++ tail) := by
  by_cases hos : os = []
  · rw [hos]
    rfl
  · rw [behindMarks_eq_cons hos, List.cons_append, Mark.legible_blank]

mutual

/-- The layout of a part in front of the rest of its sequence. -/
theorem legible_marks (before : Bool) (rest : List Outline) {tail : List Mark} (htail : Closes tail) :
    ∀ o : Outline, legible before (o.marks ++ (behindMarks rest ++ tail)) = true ↔
      o.startsClear before rest = true ∧ (∀ q ∈ o.inner, Clear false q) ∧
        legible o.isOperand (behindMarks rest ++ tail) = true
  | reference _ => by simp [marks, legible, Mark.fits, Mark.endsOperand, startsClear, inner, isOperand]
  | value _ => by simp [marks, legible, Mark.fits, Mark.endsOperand, startsClear, inner, isOperand]
  | operator symbol => by
    rw [marks, List.singleton_append, Mark.legible_operator (head?_behindMarks_ne rest htail),
      opensBehind_behindMarks rest htail, Bool.and_eq_true]
    simp [startsClear, inner, isOperand]
  | call name arguments => by
    have ih := legible_arguments (closes_closing (behindMarks rest ++ tail)) arguments
    simp only [marks, List.cons_append, List.append_assoc, List.nil_append]
    rw [Mark.legible_call, Bool.and_eq_true, ih, Mark.legible_closing]
    rfl
  | group body => by
    have ih := legible_sequence false (closes_closing (behindMarks rest ++ tail)) body
    rw [marks, List.cons_append, List.cons_append, Mark.legible_opening, List.append_assoc,
      List.singleton_append, ih, Mark.legible_closing]
    simp [startsClear, inner, isOperand, and_assoc]

/-- The layout of a sequence in front of what closes it. -/
theorem legible_sequence (before : Bool) {tail : List Mark} (htail : Closes tail) :
    ∀ os : List Outline, legible before (sequenceMarks os ++ tail) = true ↔
      Clear before os ∧ (∀ q ∈ sequenceInner os, Clear false q) ∧ legible false tail = true
  | [] => by simp [sequenceMarks, sequenceInner, clear_nil, htail.legible_eq before]
  | o :: rest => by
    have ho := legible_marks before rest htail o
    have ih := legible_sequence o.isOperand htail rest
    rw [sequenceMarks_cons, List.append_assoc, ho, legible_behindMarks, ih, clear_cons, sequenceInner,
      List.forall_mem_append]
    tauto

theorem legible_arguments {tail : List Mark} (htail : Closes tail) :
    ∀ as : List (List Outline), legible false (argumentMarks as ++ tail) = true ↔
      (∀ q ∈ argumentInner as, Clear false q) ∧ legible false tail = true
  | [] => by simp [argumentMarks, argumentInner]
  | [a] => by
    rw [argumentMarks, legible_sequence false htail a, argumentInner, argumentInner, List.append_nil,
      List.forall_mem_cons, and_assoc]
  | a :: b :: rest => by
    have ih := legible_arguments htail (b :: rest)
    have ha := legible_sequence false
      (closes_comma (.blank :: (argumentMarks (b :: rest) ++ tail))) a
    have hinner : argumentInner (a :: b :: rest) =
        (a :: sequenceInner a) ++ argumentInner (b :: rest) := rfl
    rw [argumentMarks_cons_cons, List.append_assoc, List.cons_append, List.cons_append, ha,
      Mark.legible_comma, Mark.legible_blank, ih, hinner, List.forall_mem_append,
      List.forall_mem_cons]
    tauto

end

/-- **The layout of an outline tells whether all its sequences are read as they are meant.** -/
theorem legible_sequenceMarks (os : List Outline) :
    legible false (sequenceMarks os) = true ↔ ∀ q ∈ sequences os, Clear false q := by
  have hend : Closes [] := fun m hm => by cases hm
  have hall := legible_sequence false hend os
  rw [List.append_nil] at hall
  rw [hall, sequences, List.forall_mem_cons]
  simp [legible]

end Outline
end Formulary
