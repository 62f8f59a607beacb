/-
# The blanks that are lost

A canonical text that is read and written again differs from what it was in blanks only. A blank is
lost where an operator `AND`, `OR` or `NOT` in front of a group comes back as a call, and nowhere else:
the layout of what comes back is the layout without as many blanks as there are such operators
(`tightens_sequenceReread`). The text is therefore the same if and only if there are none
(`layout_sequenceReread_iff`).

Key definitions: `Mark.Tightens`, `Outline.misreadsIn`.
Key theorems: `Outline.tightens_sequenceReread`, `Outline.layout_sequenceReread_iff`.
-/
import Formulary.Proofs.Outline.Reread
import Formulary.Proofs.Outline.Scan

namespace Formulary

namespace Mark

/-- Whether marks are other marks without so many of their blanks. -/
inductive Tightens : Nat → List Mark → List Mark → Prop
  | nil : Tightens 0 [] []
  | keep {n ms ns} (m : Mark) (h : Tightens n ms ns) : Tightens n (m :: ms) (m :: ns)
  | drop {n ms ns} (h : Tightens n ms ns) : Tightens (n + 1) ms (.blank :: ns)

namespace Tightens

variable {n k : Nat} {ms ns us vs : List Mark}

theorem refl : ∀ ms : List Mark, Tightens 0 ms ms
  | [] => .nil
  | m :: ms => .keep m (refl ms)

theorem append (h : Tightens n ms ns) (hrest : Tightens k us vs) :
    Tightens (n + k) (ms ++ us) (ns ++ vs) := by
  induction h with
  | nil => simpa using hrest
  | keep m _ ih => exact .keep m ih
  | drop _ ih =>
    rw [Nat.add_right_comm]
    exact .drop ih

theorem eq_of_zero (h : Tightens n ms ns) (hn : n = 0) : ms = ns := by
  induction h with
  | nil => rfl
  | keep m _ ih => rw [ih hn]
  | drop _ _ => cases hn

/-- The text is shorter by the blanks that are lost. -/
theorem length_text (catalog : Catalog) (h : Tightens n ms ns) :
    (ms.flatMap (text catalog)).length + n = (ns.flatMap (text catalog)).length := by
  induction h with
  | nil => rfl
  | keep m _ ih =>
    rw [List.flatMap_cons, List.flatMap_cons, List.length_append, List.length_append, ← ih,
      Nat.add_assoc]
  | drop _ ih =>
    have hblank : text catalog .blank = [' '] := rfl
    rw [List.flatMap_cons, List.length_append, ← ih, hblank, List.length_singleton]
    omega

end Tightens
end Mark

namespace Outline

open Mark (Tightens)

/-! ### Counting -/

/-- How many operators of some sequences come back as calls. -/
def misreadsIn (qs : List (List Outline)) : Nat :=
  (qs.map fun q => Role.misreads false (q.map role)).sum

theorem misreadsIn_cons (q : List Outline) (qs : List (List Outline)) :
    misreadsIn (q :: qs) = Role.misreads false (q.map role) + misreadsIn qs := by
  rw [misreadsIn, List.map_cons, List.sum_cons, misreadsIn]

theorem misreadsIn_append (qs rs : List (List Outline)) :
    misreadsIn (qs ++ rs) = misreadsIn qs + misreadsIn rs := by
  rw [misreadsIn, List.map_append, List.sum_append, misreadsIn, misreadsIn]

theorem misreadsIn_eq_zero {qs : List (List Outline)} :
    misreadsIn qs = 0 ↔ ∀ q ∈ qs, Role.misreads false (q.map role) = 0 := by
  induction qs with
  | nil => simp [misreadsIn]
  | cons q qs ih => simp [misreadsIn_cons, ih]

/-! ### The layout of what comes back -/

/-- The layout of the parts behind the first, each with a blank before it. -/
def behindMarks (os : List Outline) : List Mark :=
  os.flatMap fun o => .blank :: o.marks

theorem sequenceMarks_cons (o : Outline) (rest : List Outline) :
    sequenceMarks (o :: rest) = o.marks ++ behindMarks rest := by
  induction rest generalizing o with
  | nil => exact (List.append_nil _).symm
  | cons u rest ih =>
    rw [sequenceMarks_cons_cons, ih u]
    rfl

theorem behindMarks_eq_cons {os : List Outline} (h : os ≠ []) :
    behindMarks os = .blank :: sequenceMarks os := by
  obtain ⟨o, rest, rfl⟩ := List.exists_cons_of_ne_nil h
  rw [sequenceMarks_cons]
  rfl

theorem argumentMarks_sole (as : List (List Outline)) : argumentMarks (sole as) = argumentMarks as := by
  unfold sole
  split <;> rfl

/-- What is lost in a sequence is lost behind another part as well. -/
theorem tightens_behind {n : Nat} {before : Bool} {os : List Outline}
    (h : Tightens n (sequenceMarks (sequenceReread before os)) (sequenceMarks os)) :
    Tightens n (behindMarks (sequenceReread before os)) (behindMarks os) := by
  by_cases hos : os = []
  · subst hos
    exact h
  · rw [behindMarks_eq_cons hos, behindMarks_eq_cons (sequenceReread_ne_nil hos)]
    exact .keep _ h

/-- A blank is lost if a word and a group come back as a call. -/
theorem tightens_joinWord {n k : Nat} (before : Bool) (symbol : String)
    {body back behind rest : List Outline} (hbody : Tightens n (sequenceMarks back) (sequenceMarks body))
    (hrest : Tightens k (behindMarks behind) (behindMarks rest)) :
    Tightens ((if isFunctionName symbol && !before then 1 else 0) + n + k)
      (sequenceMarks (joinWord before symbol back ++ behind))
      (sequenceMarks (operator symbol :: group body :: rest)) := by
  have hclosed := (hbody.append (.keep .closing .nil)).append hrest
  have hgroup : behindMarks (group body :: rest) =
      .blank :: .opening :: (sequenceMarks body ++ [.closing] ++ behindMarks rest) := rfl
  rw [sequenceMarks_cons, hgroup]
  unfold joinWord
  split
  · have hcall : sequenceMarks ([call symbol (sole [back])] ++ behind) =
        .word symbol :: .opening :: (sequenceMarks back ++ [.closing] ++ behindMarks behind) := by
      rw [List.singleton_append, sequenceMarks_cons, marks, argumentMarks_sole]
      rfl
    rw [hcall, Nat.add_assoc, Nat.add_comm 1]
    exact .keep _ (.drop (.keep _ hclosed))
  · have hkept : sequenceMarks ([operator symbol, group back] ++ behind) =
        .word symbol :: .blank :: .opening ::
          (sequenceMarks back ++ [.closing] ++ behindMarks behind) := by
      rw [List.cons_append, List.singleton_append, sequenceMarks_cons]
      rfl
    rw [hkept, Nat.zero_add]
    exact .keep _ (.keep _ (.keep _ hclosed))

theorem misreads_operator_group (before : Bool) (symbol : String) (body rest : List Outline) :
    Role.misreads before ((operator symbol :: group body :: rest).map role) =
      (if isFunctionName symbol && !before then 1 else 0) + Role.misreads true (rest.map role) := by
  rw [List.map_cons, List.map_cons, Role.misreads_cons_cons, Role.misreads]
  cases hword : isFunctionName symbol <;> cases before <;>
    simp [role, Role.ofOperator, hword, Role.isOperand]

theorem misreads_of_not_group {before : Bool} {o : Outline} {rest : List Outline}
    (h : o.isOperand = true ∨ startsGroup rest = false) :
    Role.misreads before ((o :: rest).map role) = Role.misreads o.isOperand (rest.map role) := by
  have hnone : ¬((o.role = .word && !before && (rest.map role).head? = some .group) = true) := by
    rw [Bool.and_eq_true, Bool.and_eq_true, decide_eq_true_eq, decide_eq_true_eq, head?_map_role]
    rintro ⟨⟨hword, -⟩, hgroup⟩
    rcases h with hoperand | hrest
    · rw [← isOperand_role, hword] at hoperand
      cases hoperand
    · rw [hrest] at hgroup
      cases hgroup
  rw [List.map_cons, Role.misreads, if_neg hnone, isOperand_role, Nat.zero_add]

mutual

theorem tightens_reread : ∀ o : Outline, Tightens (misreadsIn o.inner) o.reread.marks o.marks
  | reference _ => .refl _
  | operator _ => .refl _
  | value _ => .refl _
  | call name arguments => by
    have ih := tightens_argumentReread arguments
    rw [reread, marks, marks, argumentMarks_sole, inner]
    exact .keep _ (.keep _ (ih.append (.keep _ .nil)))
  | group body => by
    have ih := tightens_sequenceReread false body
    rw [reread, marks, marks, inner, misreadsIn_cons]
    exact .keep _ (ih.append (.keep _ .nil))

/-- **What comes back is laid out without as many blanks as operators come back as calls.** -/
theorem tightens_sequenceReread (before : Bool) : ∀ os : List Outline,
    Tightens (Role.misreads before (os.map role) + misreadsIn (sequenceInner os))
      (sequenceMarks (sequenceReread before os)) (sequenceMarks os)
  | [] => .refl _
  | o :: rest => by
    by_cases hgroup : o.isOperand = true ∨ startsGroup rest = false
    · have ho := tightens_reread o
      have ih := tightens_behind (tightens_sequenceReread o.isOperand rest)
      have hcount : Role.misreads before ((o :: rest).map role) +
          misreadsIn (sequenceInner (o :: rest)) = misreadsIn o.inner +
            (Role.misreads o.isOperand (rest.map role) + misreadsIn (sequenceInner rest)) := by
        rw [misreads_of_not_group hgroup, sequenceInner, misreadsIn_append, Nat.add_left_comm]
      rw [sequenceReread_cons hgroup, sequenceMarks_cons, sequenceMarks_cons, hcount]
      exact ho.append ih
    · rcases o with _ | symbol | _ | _ | _ <;> try simp [isOperand] at hgroup
      rcases rest with _ | ⟨_ | _ | _ | _ | body, rest⟩ <;> try simp [startsGroup] at hgroup
      have hbody := tightens_sequenceReread false body
      have hrest := tightens_behind (tightens_sequenceReread true rest)
      have hjoined := tightens_joinWord before symbol hbody hrest
      have hcount : Role.misreads before ((operator symbol :: group body :: rest).map role) +
          misreadsIn (sequenceInner (operator symbol :: group body :: rest)) =
            (if isFunctionName symbol && !before then 1 else 0) +
              (Role.misreads false (body.map role) + misreadsIn (sequenceInner body)) +
              (Role.misreads true (rest.map role) + misreadsIn (sequenceInner rest)) := by
        rw [misreads_operator_group, sequenceInner, sequenceInner, inner, inner, List.nil_append,
          List.cons_append, misreadsIn_cons, misreadsIn_append]
        omega
      rw [sequenceReread, hcount]
      exact hjoined

theorem tightens_argumentReread : ∀ as : List (List Outline),
    Tightens (misreadsIn (argumentInner as)) (argumentMarks (argumentReread as)) (argumentMarks as)
  | [] => .nil
  | [a] => by
    have ha := tightens_sequenceReread false a
    rw [argumentInner, argumentInner, List.append_nil, misreadsIn_cons]
    exact ha
  | a :: b :: rest => by
    have ha := tightens_sequenceReread false a
    have ih := tightens_argumentReread (b :: rest)
    have hinner : argumentInner (a :: b :: rest) =
        (a :: sequenceInner a) ++ argumentInner (b :: rest) := rfl
    rw [hinner, misreadsIn_append, misreadsIn_cons, argumentMarks_cons_cons]
    exact ha.append (.keep _ (.keep _ ih))

end

/-- **The text of what comes back is the same if and only if no operator comes back as a call.** -/
theorem layout_sequenceReread_iff (catalog : Catalog) (os : List Outline) :
    (sequenceMarks (sequenceReread false os)).flatMap (Mark.text catalog) =
        (sequenceMarks os).flatMap (Mark.text catalog) ↔
      ∀ q ∈ sequences os, Role.misreads false (q.map role) = 0 := by
  have htightens := tightens_sequenceReread false os
  rw [← misreadsIn_cons, ← sequences] at htightens
  rw [← misreadsIn_eq_zero]
  constructor
  · intro heq
    have hlength := htightens.length_text catalog
    rw [heq] at hlength
    omega
  · intro hzero
    rw [htightens.eq_of_zero hzero]

end Outline
end Formulary
