/-
# Outlines

An outline is what a formula says, without the positions of its terms in a text and the identifiers
of its nodes in a store. Reading and writing are compared on outlines: a text is read into terms that
have an outline, the forest of a store has one, and an outline is laid out as marks, which stand for
the pieces of a text under a catalog.

Where the words `AND`, `OR` and `NOT` stand in a sequence decides how they are read back. A call of
one of them behind an operand would come back as an operator (`Role.callsFit`), and an operator in
front of a group, with no operand before it, comes back as a call (`Role.misreads`).

Key definitions: `Outline`, `Outline.sequences`, `Outline.sequenceMarks`, `Mark`, `Role.callsFit`,
`Role.misreads`, `Outline.sequenceHeight`.
-/
import Formulary.Number.Basic
import Formulary.Operator
import Formulary.Proofs.Number.Text
import Formulary.Signature

namespace Formulary

/-- A part of a formula. -/
inductive Outline
  | reference (id : String)
  | operator (symbol : String)
  | value (number : Number)
  | call (name : String) (arguments : List (List Outline))
  | group (body : List Outline)

/-- A piece of a canonical text, for any catalog. -/
inductive Mark
  | blank
  /-- The name of a function or the symbol of an operator. -/
  | word (text : String)
  | reference (id : String)
  | value (number : Number)
  | opening
  | closing
  | comma
deriving DecidableEq

namespace Mark

/-- Whether a mark stands for a lexeme. -/
def isSolid (m : Mark) : Bool :=
  m ≠ blank

/-- The mark of what comes back. -/
def settled : Mark → Mark
  | value number => value number.settled
  | m => m

end Mark

/-! ### Roles in a sequence -/

/-- What an element of a sequence is to its neighbours. -/
inductive Role
  /-- A reference, a value, or a call whose name is no operator. -/
  | operand
  /-- A call of `AND`, `OR` or `NOT`. -/
  | wordCall
  | group
  /-- `AND`, `OR` or `NOT` as an operator. -/
  | word
  | symbol
deriving DecidableEq

namespace Role

/-- The role of a call. -/
def ofCall (name : String) : Role :=
  if isOperator name then wordCall else operand

/-- The role of an operator. -/
def ofOperator (symbol : String) : Role :=
  if isFunctionName symbol then word else Role.symbol

/-- Whether the element stands for a value. -/
def isOperand : Role → Bool
  | operand | wordCall | group => true
  | word | symbol => false

/-- Whether no call of `AND`, `OR` or `NOT` stands behind an operand; `before` tells whether an
operand stands before the sequence. -/
def callsFit : Bool → List Role → Bool
  | _, [] => true
  | before, r :: rest => !(r = wordCall && before) && callsFit r.isOperand rest

/-- How many of the operators `AND`, `OR` and `NOT` stand in front of a group and not behind an
operand. -/
def misreads : Bool → List Role → Nat
  | _, [] => 0
  | before, r :: rest =>
    (if r = word && !before && rest.head? = some group then 1 else 0) + misreads r.isOperand rest

/-- Whether a sequence ends with an operand. -/
def endsOperand : Bool → List Role → Bool
  | before, [] => before
  | _, r :: rest => endsOperand r.isOperand rest

/-- Whether a sequence ends with `AND`, `OR` or `NOT` and no operand before it. -/
def dangles : Bool → List Role → Bool
  | _, [] => false
  | before, [r] => r = word && !before
  | _, r :: rest => dangles r.isOperand rest

theorem endsOperand_append (r : Role) : ∀ (before : Bool) (rs : List Role),
    endsOperand before (rs ++ [r]) = r.isOperand
  | _, [] => rfl
  | _, s :: rs => endsOperand_append r s.isOperand rs

theorem callsFit_append (r : Role) : ∀ (before : Bool) (rs : List Role),
    callsFit before (rs ++ [r]) = (callsFit before rs && !(r = wordCall && endsOperand before rs))
  | before, [] => by simp [callsFit, endsOperand]
  | before, s :: rs => by
    simp only [List.cons_append, callsFit, callsFit_append r s.isOperand rs, endsOperand,
      Bool.and_assoc]

theorem dangles_cons_cons (before : Bool) (r s : Role) (rs : List Role) :
    dangles before (r :: s :: rs) = dangles r.isOperand (s :: rs) := rfl

theorem dangles_append (r : Role) : ∀ (before : Bool) (rs : List Role),
    dangles before (rs ++ [r]) = (decide (r = word) && !endsOperand before rs)
  | before, [] => rfl
  | before, [s] => rfl
  | before, s :: t :: rs => by
    rw [List.cons_append, List.cons_append, dangles_cons_cons, ← List.cons_append,
      dangles_append r s.isOperand (t :: rs)]
    rfl

theorem misreads_cons_cons (before : Bool) (r s : Role) (rs : List Role) :
    misreads before (r :: s :: rs) =
      (if r = word && !before && s = group then 1 else 0) + misreads r.isOperand (s :: rs) := by
  simp [misreads]

theorem misreads_append (r : Role) : ∀ (before : Bool) (rs : List Role),
    misreads before (rs ++ [r]) =
      misreads before rs + if r = group && dangles before rs then 1 else 0
  | before, [] => by simp [misreads, dangles]
  | before, [s] => by
    simp only [List.cons_append, List.nil_append, misreads, dangles, List.head?_cons,
      List.head?_nil, Option.some.injEq]
    cases r <;> cases s <;> cases before <;> rfl
  | before, s :: t :: rs => by
    rw [List.cons_append, List.cons_append, misreads_cons_cons, ← List.cons_append,
      misreads_append r s.isOperand (t :: rs), misreads_cons_cons, dangles_cons_cons, Nat.add_assoc]

end Role

namespace Outline

/-! ### The sequences of an outline -/

mutual

/-- The sequences inside a part of a formula. -/
def inner : Outline → List (List Outline)
  | reference _ | operator _ | value _ => []
  | call _ arguments => argumentInner arguments
  | group body => body :: sequenceInner body

/-- The sequences inside the parts of a sequence. -/
def sequenceInner : List Outline → List (List Outline)
  | [] => []
  | o :: rest => o.inner ++ sequenceInner rest

/-- The sequences in the arguments of a call. -/
def argumentInner : List (List Outline) → List (List Outline)
  | [] => []
  | argument :: rest => argument :: sequenceInner argument ++ argumentInner rest

end

/-- A sequence and all sequences inside it. -/
def sequences (os : List Outline) : List (List Outline) :=
  os :: sequenceInner os

theorem sequenceInner_append : ∀ os us : List Outline,
    sequenceInner (os ++ us) = sequenceInner os ++ sequenceInner us
  | [], _ => rfl
  | o :: os, us => by
    rw [List.cons_append, sequenceInner, sequenceInner, sequenceInner_append os us,
      List.append_assoc]

/-- The role of a part of a formula. -/
def role : Outline → Role
  | reference _ | value _ => .operand
  | operator symbol => .ofOperator symbol
  | call name _ => .ofCall name
  | group _ => .group

/-- Whether a part of a formula stands for a value. -/
def isOperand : Outline → Bool
  | operator _ => false
  | _ => true

theorem isOperand_role (o : Outline) : o.role.isOperand = o.isOperand := by
  cases o with
  | reference id => rfl
  | operator symbol =>
    simp only [role, Role.ofOperator, isOperand]
    split <;> rfl
  | value n => rfl
  | call name arguments =>
    simp only [role, Role.ofCall, isOperand]
    split <;> rfl
  | group body => rfl

/-- Whether a part is a call whose only argument is empty. It is written like a call without
arguments. -/
def isHollow : Outline → Bool
  | call _ [[]] => true
  | _ => false

/-! ### The layout of an outline -/

mutual

/-- The layout of a part of a formula. -/
def marks : Outline → List Mark
  | reference id => [.reference id]
  | operator symbol => [.word symbol]
  | value number => [.value number]
  | call name arguments => .word name :: .opening :: argumentMarks arguments ++ [.closing]
  | group body => .opening :: sequenceMarks body ++ [.closing]

/-- The layout of a sequence: its parts with a blank between them. -/
def sequenceMarks : List Outline → List Mark
  | [] => []
  | [o] => o.marks
  | o :: rest => o.marks ++ .blank :: sequenceMarks rest

/-- The layout of the arguments of a call: with a comma and a blank between them. -/
def argumentMarks : List (List Outline) → List Mark
  | [] => []
  | [argument] => sequenceMarks argument
  | argument :: rest => sequenceMarks argument ++ .comma :: .blank :: argumentMarks rest

end

theorem sequenceMarks_cons_cons (o u : Outline) (rest : List Outline) :
    sequenceMarks (o :: u :: rest) = o.marks ++ .blank :: sequenceMarks (u :: rest) := rfl

theorem argumentMarks_cons_cons (a b : List Outline) (rest : List (List Outline)) :
    argumentMarks (a :: b :: rest) =
      sequenceMarks a ++ .comma :: .blank :: argumentMarks (b :: rest) := rfl

/-- The layout of a part without blanks. -/
def solid (o : Outline) : List Mark := o.marks.filter Mark.isSolid

/-- The layout of a sequence without blanks. -/
def sequenceSolid (os : List Outline) : List Mark := (sequenceMarks os).filter Mark.isSolid

/-- The layout of arguments without blanks. -/
def argumentSolid (as : List (List Outline)) : List Mark := (argumentMarks as).filter Mark.isSolid

theorem solid_call (name : String) (arguments : List (List Outline)) :
    (call name arguments).solid =
      .word name :: .opening :: argumentSolid arguments ++ [.closing] := by
  simp [solid, marks, argumentSolid, Mark.isSolid]

theorem solid_group (body : List Outline) :
    (group body).solid = .opening :: sequenceSolid body ++ [.closing] := by
  simp [solid, marks, sequenceSolid, Mark.isSolid]

theorem sequenceSolid_cons (o : Outline) (rest : List Outline) :
    sequenceSolid (o :: rest) = o.solid ++ sequenceSolid rest := by
  cases rest with
  | nil => simp [sequenceSolid, sequenceMarks, solid]
  | cons u rest => simp [sequenceSolid, sequenceMarks_cons_cons, solid, Mark.isSolid]

theorem sequenceSolid_append : ∀ os us : List Outline,
    sequenceSolid (os ++ us) = sequenceSolid os ++ sequenceSolid us
  | [], _ => rfl
  | o :: os, us => by
    rw [List.cons_append, sequenceSolid_cons, sequenceSolid_cons, sequenceSolid_append os us,
      List.append_assoc]

theorem argumentSolid_cons_cons (a b : List Outline) (rest : List (List Outline)) :
    argumentSolid (a :: b :: rest) = sequenceSolid a ++ .comma :: argumentSolid (b :: rest) := by
  simp [argumentSolid, argumentMarks_cons_cons, sequenceSolid, Mark.isSolid]

/-- The last argument follows the others, each of which ends with a comma. -/
theorem argumentSolid_concat (last : List Outline) : ∀ as : List (List Outline),
    argumentSolid (as ++ [last]) =
      (as.flatMap fun a => sequenceSolid a ++ [.comma]) ++ sequenceSolid last
  | [] => rfl
  | [a] => by
    rw [List.singleton_append, argumentSolid_cons_cons]
    simp [argumentSolid, argumentMarks, sequenceSolid]
  | a :: b :: as => by
    rw [List.cons_append, List.cons_append, argumentSolid_cons_cons, ← List.cons_append,
      argumentSolid_concat last (b :: as)]
    simp

/-! ### What holds of all marks -/

/-- The mark of a part itself, without what is inside it. -/
def own : Outline → Option Mark
  | reference id => some (.reference id)
  | operator symbol => some (.word symbol)
  | value number => some (.value number)
  | call name _ => some (.word name)
  | group _ => none

section All

variable {P : Mark → Prop} (hframe : ∀ m ∈ [Mark.blank, .opening, .closing, .comma], P m)
include hframe

mutual

theorem forall_marks_iff : ∀ o : Outline, (∀ m ∈ o.marks, P m) ↔
    (∀ m ∈ o.own, P m) ∧ ∀ q ∈ o.inner, ∀ u ∈ q, ∀ m ∈ u.own, P m
  | reference _ => by simp [marks, own, inner]
  | operator _ => by simp [marks, own, inner]
  | value _ => by simp [marks, own, inner]
  | call name arguments => by
    have ih := forall_argumentMarks_iff arguments
    have hopening := hframe .opening (by simp)
    have hclosing := hframe .closing (by simp)
    simp only [marks, own, inner, List.cons_append, List.forall_mem_cons, List.forall_mem_append, ih,
      Option.mem_def, Option.some.injEq, forall_eq']
    tauto
  | group body => by
    have ih := forall_sequenceMarks_iff body
    have hopening := hframe .opening (by simp)
    have hclosing := hframe .closing (by simp)
    simp only [marks, own, inner, List.cons_append, List.forall_mem_cons, List.forall_mem_append, ih,
      Option.mem_def, reduceCtorEq]
    tauto

/-- What holds of the marks of a layout holds of those of the parts in its sequences. -/
theorem forall_sequenceMarks_iff : ∀ os : List Outline, (∀ m ∈ sequenceMarks os, P m) ↔
    (∀ o ∈ os, ∀ m ∈ o.own, P m) ∧ ∀ q ∈ sequenceInner os, ∀ u ∈ q, ∀ m ∈ u.own, P m
  | [] => by simp [sequenceMarks, sequenceInner]
  | [o] => by
    have ho := forall_marks_iff o
    simp only [sequenceMarks, sequenceInner, List.append_nil, List.forall_mem_singleton]
    exact ho
  | o :: u :: rest => by
    have ho := forall_marks_iff o
    have ih := forall_sequenceMarks_iff (u :: rest)
    have hblank := hframe .blank (by simp)
    have hinner : sequenceInner (o :: u :: rest) = o.inner ++ sequenceInner (u :: rest) := rfl
    rw [sequenceMarks_cons_cons, List.forall_mem_append, List.forall_mem_cons, ho, ih, hinner,
      List.forall_mem_append, List.forall_mem_cons (a := o)]
    tauto

theorem forall_argumentMarks_iff : ∀ as : List (List Outline), (∀ m ∈ argumentMarks as, P m) ↔
    ∀ q ∈ argumentInner as, ∀ u ∈ q, ∀ m ∈ u.own, P m
  | [] => by simp [argumentMarks, argumentInner]
  | [a] => by
    have ha := forall_sequenceMarks_iff a
    rw [argumentMarks, argumentInner, argumentInner, List.append_nil, List.forall_mem_cons, ha]
  | a :: b :: rest => by
    have ha := forall_sequenceMarks_iff a
    have ih := forall_argumentMarks_iff (b :: rest)
    have hcomma := hframe .comma (by simp)
    have hblank := hframe .blank (by simp)
    have hinner : argumentInner (a :: b :: rest) =
        (a :: sequenceInner a) ++ argumentInner (b :: rest) := rfl
    rw [argumentMarks_cons_cons, List.forall_mem_append, List.forall_mem_cons, List.forall_mem_cons, ha,
      ih, hinner, List.forall_mem_append, List.forall_mem_cons]
    tauto

end

/-- What holds of blanks, parentheses and commas holds of all marks of a layout if it holds of the marks
of the parts in its sequences. -/
theorem forall_mem_sequenceMarks (os : List Outline) : (∀ m ∈ sequenceMarks os, P m) ↔
    ∀ q ∈ sequences os, ∀ o ∈ q, ∀ m ∈ o.own, P m := by
  rw [forall_sequenceMarks_iff hframe, sequences, List.forall_mem_cons]

end All

/-! ### The nesting of an outline -/

mutual

/-- How deeply parentheses are nested in a part of a formula. -/
def height : Outline → Nat
  | reference _ | operator _ | value _ => 0
  | call _ arguments => 1 + argumentHeight arguments
  | group body => 1 + sequenceHeight body

/-- How deeply parentheses are nested in a sequence. -/
def sequenceHeight : List Outline → Nat
  | [] => 0
  | o :: rest => max o.height (sequenceHeight rest)

/-- How deeply parentheses are nested in the arguments of a call. -/
def argumentHeight : List (List Outline) → Nat
  | [] => 0
  | argument :: rest => max (sequenceHeight argument) (argumentHeight rest)

end

theorem sequenceHeight_append : ∀ os us : List Outline,
    sequenceHeight (os ++ us) = max (sequenceHeight os) (sequenceHeight us)
  | [], us => by simp [sequenceHeight]
  | o :: os, us => by
    rw [List.cons_append, sequenceHeight, sequenceHeight, sequenceHeight_append os us, Nat.max_assoc]

/-! ### What comes back of the numbers -/

mutual

/-- A part of a formula with its numbers as they come back. -/
def settled : Outline → Outline
  | reference id => reference id
  | operator symbol => operator symbol
  | value number => value number.settled
  | call name arguments => call name (argumentSettled arguments)
  | group body => group (sequenceSettled body)

/-- A sequence with its numbers as they come back. -/
def sequenceSettled : List Outline → List Outline
  | [] => []
  | o :: rest => o.settled :: sequenceSettled rest

/-- Arguments with their numbers as they come back. -/
def argumentSettled : List (List Outline) → List (List Outline)
  | [] => []
  | argument :: rest => sequenceSettled argument :: argumentSettled rest

end

theorem sequenceSettled_eq_map : ∀ os : List Outline, sequenceSettled os = os.map settled
  | [] => rfl
  | o :: os => by rw [sequenceSettled, sequenceSettled_eq_map os, List.map_cons]

theorem role_settled (o : Outline) : o.settled.role = o.role := by
  cases o <;> rfl

theorem map_role_settled (os : List Outline) : (sequenceSettled os).map role = os.map role := by
  rw [sequenceSettled_eq_map, List.map_map]
  exact List.map_congr_left fun o _ => role_settled o

mutual

/-- Settled numbers are laid out where the numbers were. -/
theorem marks_settled : ∀ o : Outline, o.settled.marks = o.marks.map Mark.settled
  | reference _ => rfl
  | operator _ => rfl
  | value _ => rfl
  | call name arguments => by
    simp [settled, marks, argumentMarks_settled arguments, Mark.settled]
  | group body => by
    simp [settled, marks, sequenceMarks_settled body, Mark.settled]

theorem sequenceMarks_settled : ∀ os : List Outline,
    sequenceMarks (sequenceSettled os) = (sequenceMarks os).map Mark.settled
  | [] => rfl
  | [o] => marks_settled o
  | o :: u :: rest => by
    have ih := sequenceMarks_settled (u :: rest)
    simp only [sequenceSettled] at ih ⊢
    simp [sequenceMarks_cons_cons, marks_settled o, ih, Mark.settled]

theorem argumentMarks_settled : ∀ as : List (List Outline),
    argumentMarks (argumentSettled as) = (argumentMarks as).map Mark.settled
  | [] => rfl
  | [a] => sequenceMarks_settled a
  | a :: b :: rest => by
    have ih := argumentMarks_settled (b :: rest)
    simp only [argumentSettled] at ih ⊢
    simp [argumentMarks_cons_cons, sequenceMarks_settled a, ih, Mark.settled]

end

mutual

theorem inner_settled : ∀ o : Outline, o.settled.inner = o.inner.map sequenceSettled
  | reference _ => rfl
  | operator _ => rfl
  | value _ => rfl
  | call _ arguments => argumentInner_settled arguments
  | group body => by
    simp only [settled, inner, List.map_cons, sequenceInner_settled body]

theorem sequenceInner_settled : ∀ os : List Outline,
    sequenceInner (sequenceSettled os) = (sequenceInner os).map sequenceSettled
  | [] => rfl
  | o :: rest => by
    simp only [sequenceSettled, sequenceInner, List.map_append, inner_settled o,
      sequenceInner_settled rest]

theorem argumentInner_settled : ∀ as : List (List Outline),
    argumentInner (argumentSettled as) = (argumentInner as).map sequenceSettled
  | [] => rfl
  | a :: rest => by
    simp only [argumentSettled, argumentInner, List.map_cons, List.map_append, List.cons_append,
      sequenceInner_settled a, argumentInner_settled rest]

end

/-- The sequences of a settled outline are the settled sequences. -/
theorem sequences_settled (os : List Outline) :
    sequences (sequenceSettled os) = (sequences os).map sequenceSettled := by
  rw [sequences, sequences, List.map_cons, sequenceInner_settled]

end Outline
end Formulary
